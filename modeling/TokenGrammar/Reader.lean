import TokenGrammar.Pattern
import TokenGrammar.Token

namespace TokenGrammar

/-- A place in a text, counted from zero. -/
structure Place where
  line : Nat
  characterInLine : Nat
  absoluteCharacter : Nat
  deriving DecidableEq

namespace Place

def start : Place := ⟨0, 0, 0⟩

/-- The place behind a code; a line feed begins a new line. -/
def next (place : Place) (code : Nat) : Place :=
  if code = Text.lineFeed then ⟨place.line + 1, 0, place.absoluteCharacter + 1⟩
  else ⟨place.line, place.characterInLine + 1, place.absoluteCharacter + 1⟩

def position (place : Place) : Position :=
  .ofCounts place.line place.characterInLine place.absoluteCharacter

end Place

/-- The characters allowed in words: those that a pattern matches, or those that a predicate accepts. -/
inductive AllowedCharacters where
  | pattern (pattern : Pattern)
  | predicate (accepts : Text → Bool)

/-- A reader goes over the codes of a text, so that a unit that is no part of a character counts as a character. -/
structure TokenReader where
  definitions : List Definition
  allows : Nat → Bool
  separators : List Nat

/-- A word that is not finished: where it began, and its codes with the latest first. -/
structure OpenWord where
  start : Place
  codes : List Nat

namespace TokenReader

/-- The test that a single character is allowed. -/
def allowedTest (data : Pattern.CharacterData) : AllowedCharacters → Except Fault (Nat → Bool)
  | .predicate accepts => .ok fun code => accepts (.ofCodes [code])
  | .pattern expression =>
    match Pattern.whole data expression.text expression.flags with
    | .ok single => .ok fun code => single.occursIn (.ofCodes [code])
    | .error problem => .error (.invalidPattern expression.text problem)

/-- Separators are single characters. -/
def separatorCodes : List Text → Except Fault (List Nat)
  | [] => .ok []
  | separator :: rest =>
    match separator.codes with
    | [code] => return code :: (← separatorCodes rest)
    | _ => .error (.separatorNotOneCharacter separator)

/-- Makes a reader. The backslash and the line feed always separate. -/
def create (data : Pattern.CharacterData) (definitions : List Definition) (allowed : AllowedCharacters)
    (separators : List Text) : Except Fault TokenReader := do
  let allows ← allowedTest data allowed
  let separators ← separatorCodes separators
  return { definitions, allows, separators := separators ++ [Text.backslash, Text.lineFeed] }

def finish : Option OpenWord → Except Fault (List Token)
  | none => .ok []
  | some word => do
    return [← Token.ofWord .word (.ofCodes word.codes.reverse) word.start.position]

/-- The token of a separator, where a definition accepts it; the first one that does defines the token. -/
def ofSeparator (reader : TokenReader) (code : Nat) (place : Place) : Except Fault (List Token) :=
  let spelling := Text.ofCodes [code]
  match reader.definitions.find? fun definition => definition.accepts spelling with
  | none => .ok []
  | some definition => do return [← Token.ofWord definition spelling place.position]

/-- The failure at a place of a text. -/
def failure (text : List Nat) (place : Place) (problem : ReadProblem) : ReadFailure :=
  let offset := place.absoluteCharacter
  { problem
    line := place.line
    characterInLine := place.characterInLine
    absoluteCharacter := offset
    excerpt := .ofCodes ((text.drop (offset - 10)).take (min offset 10 + 10)) }

/-- Takes one more code into a word. -/
def extend (word : Option OpenWord) (place : Place) (code : Nat) : OpenWord :=
  match word with
  | none => ⟨place, [code]⟩
  | some word => { word with codes := code :: word.codes }

/-- Reads the rest of a text from a place on, where a word may be open. -/
def readFrom (reader : TokenReader) (text : List Nat) :
    Place → Option OpenWord → List Nat → Except Fault (List Token)
  | _, word, [] => finish word
  | place, word, code :: rest =>
    if code = Text.backslash then do
      let finished ← finish word
      match rest with
      | [] => .error (.unreadable (failure text place .danglingEscape))
      | escaped :: rest =>
        let token ← Token.ofEscape (.ofCodes [code, escaped]) place.position none
        let tokens ← readFrom reader text ((place.next code).next escaped) none rest
        return finished ++ token :: tokens
    else if reader.separators.contains code then do
      let finished ← finish word
      let token ← reader.ofSeparator code place
      let tokens ← readFrom reader text (place.next code) none rest
      return finished ++ token ++ tokens
    else if reader.allows code then
      readFrom reader text (place.next code) (some (extend word place code)) rest
    else .error (.unreadable (failure text place (.unexpected (.ofCodes [code]))))

def read (reader : TokenReader) (text : Text) : Except Fault (List Token) :=
  reader.readFrom text.codes .start none text.codes

end TokenReader

end TokenGrammar
