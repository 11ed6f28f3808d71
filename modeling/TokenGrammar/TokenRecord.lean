import TokenGrammar.Action

namespace TokenGrammar

/-- A token as it is kept. Whatever it is put around or composed of, it has a definition, a value, positions and types
of its own, which are written when it is made. -/
inductive TokenRecord where
  | simple (own : Leaf)
  | escaped (own : Leaf) (character : Text)
  | group (own : Leaf) (members : List TokenRecord)
  | annotated (own : Leaf) (token : TokenRecord) (metadata : Fields)
  | indexed (own : Leaf) (token : TokenRecord) (ordinal : Number)
  | shadow (own : Leaf) (token : TokenRecord)

namespace TokenRecord

def own : TokenRecord → Leaf
  | .simple own | .escaped own _ | .group own _ | .annotated own _ _ | .indexed own _ _ | .shadow own _ => own

def definition (token : TokenRecord) : Definition := token.own.definition

def value (token : TokenRecord) : Text := token.own.value

def position (token : TokenRecord) : Position := token.own.position

def endPosition (token : TokenRecord) : Position := token.own.endPosition

def types (token : TokenRecord) : List TokenType := token.own.types

def ofWord (definition : Definition) (value : Text) (position : Position) : Except Fault TokenRecord := do
  Token.checkAccepted definition value
  return .simple { definition, value, position, endPosition := ← position.endOf value, types := [] }

/-- Makes an escaped token from the backslash and the character behind it. -/
def ofEscape (value : Text) (position : Position) (definition : Option Definition) : Except Fault TokenRecord :=
  match Token.escapedCharacter? value with
  | some character => do
    let definition := definition.getD (.escaped character)
    Token.checkAccepted definition value
    return .escaped { definition, value, position, endPosition := ← position.endOf value, types := [] } character
  | none => .error (.notAnEscape value)

/-- The values of tokens one after the other. -/
def joinedValue (tokens : List TokenRecord) : Text := ⟨tokens.flatMap fun token => token.value.units⟩

/-- Composes two or more tokens. The group begins with the first and ends with the last of them. -/
def ofGroup (members : List TokenRecord) (definition : Option Definition) : Except Fault TokenRecord :=
  match members with
  | first :: second :: rest => do
    let value := joinedValue members
    let definition := definition.getD (.exactly value)
    Token.checkAccepted definition value
    let last := (second :: rest).getLast (List.cons_ne_nil second rest)
    return .group { definition, value, position := first.position, endPosition := last.endPosition, types := [] } members
  | _ => .error (.groupTooSmall members.length)

/-- What a wrapper copies from the token that it is put around. -/
def copied (token : TokenRecord) : Leaf where
  definition := token.definition
  value := token.value
  position := token.position
  endPosition := token.endPosition
  types := token.types

def annotate (token : TokenRecord) (metadata : Fields) : TokenRecord := .annotated token.copied token metadata

def number (token : TokenRecord) (ordinal : Number) : Except Fault TokenRecord := do
  check ordinal.toNat?.isSome (.badOrdinal ordinal)
  return .indexed token.copied token ordinal

/-- Hides a token; what is hidden stays as it is. -/
def hide : TokenRecord → TokenRecord
  | .shadow own token => .shadow own token
  | token => .shadow token.copied token

/-- The token behind a shadow, and any other token itself. -/
def unhide : TokenRecord → TokenRecord
  | .shadow _ token => token
  | token => token

/-- A copy of a token with other types. -/
def withTypeList (token : TokenRecord) (types : List TokenType) : TokenRecord :=
  match token with
  | .simple own => .simple { own with types }
  | .escaped own character => .escaped { own with types } character
  | .group own members => .group { own with types } members
  | .annotated own token metadata => .annotated { own with types } token metadata
  | .indexed own token ordinal => .indexed { own with types } token ordinal
  | .shadow own token => .shadow { own with types } token

/-- A token that carries more types. It is the token itself if it has all of them. -/
def withTypes (token : TokenRecord) (types : List TokenType) : TokenRecord :=
  if types.all token.types.contains then token else token.withTypeList (Token.addTypes token.types types)

/-- The token inside of all annotations and numbers. -/
def unwrap : TokenRecord → TokenRecord
  | .annotated _ token _ => token.unwrap
  | .indexed _ token _ => token.unwrap
  | token => token

def isGroup : TokenRecord → Bool
  | .group .. => true
  | _ => false

mutual

/-- The leaves of what a token holds inside, where the token itself stands for what is no group. -/
def leavesWithin (outer : TokenRecord) : TokenRecord → List TokenRecord
  | .group _ members => allLeaves members
  | .annotated _ token _ => leavesWithin outer token
  | .indexed _ token _ => leavesWithin outer token
  | .simple _ => [outer]
  | .escaped .. => [outer]
  | .shadow .. => [outer]

/-- The leaves of several tokens, one token after the other. -/
def allLeaves : List TokenRecord → List TokenRecord
  | [] => []
  | token :: rest => leavesWithin token token ++ allLeaves rest

end

/-- The tokens that a token is finally composed of. -/
def leaves (token : TokenRecord) : List TokenRecord := leavesWithin token token

/-- The token that a wrapper is put around. -/
def wrapped? : TokenRecord → Option TokenRecord
  | .annotated _ token _ | .indexed _ token _ | .shadow _ token => some token
  | _ => none

def members? : TokenRecord → Option (List TokenRecord)
  | .group _ members => some members
  | _ => none

/-- The tokens right inside of a token. -/
def parts : TokenRecord → List TokenRecord
  | .simple _ | .escaped .. => []
  | .group _ members => members
  | .annotated _ token _ | .indexed _ token _ | .shadow _ token => [token]

/-- The tokens that replace those of a match, and those that were handed out. -/
structure Edit where
  tokens : List TokenRecord
  extracted : List TokenRecord := []

/-- The token of a part; it keeps the definition of the whole token if that accepts the part, and is a word
otherwise. -/
def ofPart (token : TokenRecord) (part : Action.Part) : Except Fault TokenRecord := do
  let definition := if token.definition.accepts part.text then token.definition else .word
  ofWord definition part.text (← token.position.shift token.value (.ofNat part.offset))

/-- The tokens of the parts of a token; a token in one part stays as it is. -/
def splitToken (separator : Pattern) (token : TokenRecord) : Except Fault (List TokenRecord) :=
  let parts := Action.parts separator token.value
  if parts.map Action.Part.text = [token.value] then .ok [token] else parts.mapM token.ofPart

def numberFrom (start : Number) : Nat → List TokenRecord → Except Fault (List TokenRecord)
  | _, [] => .ok []
  | place, token :: rest => do
    let numbered ← token.number (start + .ofNat place)
    return numbered :: (← numberFrom start (place + 1) rest)

/-- Merges tokens into one group; fewer than two stay as they are. -/
def merge (mode : GroupingMode) (definition : Option Definition) (tokens : List TokenRecord) :
    Except Fault (List TokenRecord) := do
  let members := match mode with
    | .matched => tokens
    | .all => tokens.flatMap leaves
  if members.length < 2 then return tokens else return [← ofGroup members definition]

end TokenRecord

/-- The actions on tokens as they are kept. What a transformation is given besides the tokens is settled before. -/
inductive RecordAction where
  | identity
  | transform (transformer : List TokenRecord → Except Fault (List TokenRecord))
  | convert (converter : TokenRecord → Except Fault TokenRecord)
  | filter (accepts : TokenRecord → Bool)
  | skip (accepts : TokenRecord → Bool)
  | extract (accepts : TokenRecord → Bool)
  | grouping (mode : GroupingMode) (definition : Option Definition)
  | wrap (opening closing : TokenRecord)
  | split (separator : Pattern)
  | annotate (metadata : Fields)
  | classify (classifier : TokenRecord → List TokenType)
  | index (start : Number)

namespace RecordAction

open TokenRecord

/-- What an action makes of the tokens of a match. -/
def apply (action : RecordAction) (tokens : List TokenRecord) : Except Fault TokenRecord.Edit := do
  match action with
  | .identity => return { tokens }
  | .transform transformer => return { tokens := ← transformer tokens }
  | .convert converter => return { tokens := ← tokens.mapM converter }
  | .filter accepts => return { tokens := tokens.filter accepts }
  | .skip accepts => return { tokens := tokens.filter fun token => !accepts token }
  | .extract accepts =>
    return { tokens := tokens.filter fun token => !accepts token, extracted := tokens.filter accepts }
  | .grouping mode definition => return { tokens := ← merge mode definition tokens }
  | .wrap opening closing => return { tokens := opening :: tokens ++ [closing] }
  | .split separator => return { tokens := (← tokens.mapM (splitToken separator)).flatten }
  | .annotate metadata => return { tokens := tokens.map fun token => token.annotate metadata }
  | .classify classifier => return { tokens := tokens.map fun token => token.withTypes (classifier token) }
  | .index start => return { tokens := ← numberFrom start 0 tokens }

/-- The tokens that an action brings along. -/
def brings : RecordAction → List TokenRecord
  | .wrap opening closing => [opening, closing]
  | _ => []

/-- Whether an action writes what a function of a caller returns. -/
def isCallers : RecordAction → Bool
  | .transform _ | .convert _ => true
  | _ => false

end RecordAction

end TokenGrammar
