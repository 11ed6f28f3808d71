import TokenGrammar.Definition
import TokenGrammar.Position
import TokenGrammar.TokenType

namespace TokenGrammar

/-- What a token that is read carries. -/
structure Leaf where
  definition : Definition
  value : Text
  position : Position
  endPosition : Position
  types : List TokenType

/-- An escaped token is a backslash and one character. A group is one token made of several. A shadow is
kept among the tokens but hidden from rules. -/
inductive Token where
  | simple (leaf : Leaf)
  | escaped (leaf : Leaf) (character : Text)
  | group (definition : Definition) (types : List TokenType) (members : List Token)
  | annotated (types : List TokenType) (token : Token) (metadata : Fields)
  | indexed (types : List TokenType) (token : Token) (ordinal : Number)
  | shadow (types : List TokenType) (token : Token)

inductive TokenKind where
  | simple
  | escaped
  | group
  | annotated
  | indexed
  | shadow
  deriving DecidableEq

def TokenKind.name : TokenKind → String
  | .simple => "simple"
  | .escaped => "escaped"
  | .group => "group"
  | .annotated => "annotated"
  | .indexed => "indexed"
  | .shadow => "shadow"

namespace Token

def kind : Token → TokenKind
  | .simple _ => .simple
  | .escaped .. => .escaped
  | .group .. => .group
  | .annotated .. => .annotated
  | .indexed .. => .indexed
  | .shadow .. => .shadow

mutual

/-- Puts the text of a token in front of other units; a group is written as its members one after the other. -/
def writeBefore (after : List UInt16) : Token → List UInt16
  | .simple leaf => leaf.value.units ++ after
  | .escaped leaf _ => leaf.value.units ++ after
  | .group _ _ members => writeAllBefore after members
  | .annotated _ token _ => writeBefore after token
  | .indexed _ token _ => writeBefore after token
  | .shadow _ token => writeBefore after token

/-- Puts the texts of tokens, one after the other, in front of other units. -/
def writeAllBefore (after : List UInt16) : List Token → List UInt16
  | [] => after
  | token :: rest => writeBefore (writeAllBefore after rest) token

end

def value (token : Token) : Text := ⟨writeBefore [] token⟩

/-- The texts of tokens one after the other. -/
def joinedValue (tokens : List Token) : Text := ⟨writeAllBefore [] tokens⟩

def definition : Token → Definition
  | .simple leaf => leaf.definition
  | .escaped leaf _ => leaf.definition
  | .group definition _ _ => definition
  | .annotated _ token _ => token.definition
  | .indexed _ token _ => token.definition
  | .shadow _ token => token.definition

/-- The types of a token; a wrapper has its own. -/
def types : Token → List TokenType
  | .simple leaf => leaf.types
  | .escaped leaf _ => leaf.types
  | .group _ types _ => types
  | .annotated types _ _ => types
  | .indexed types _ _ => types
  | .shadow types _ => types

mutual

/-- The position of the first character of a token. -/
def position : Token → Position
  | .simple leaf => leaf.position
  | .escaped leaf _ => leaf.position
  | .group _ _ members => firstPosition members
  | .annotated _ token _ => token.position
  | .indexed _ token _ => token.position
  | .shadow _ token => token.position

/-- The position of the first of several tokens. -/
def firstPosition : List Token → Position
  | [] => .unpositioned
  | token :: _ => token.position

end

mutual

/-- The position of the last character of a token. -/
def endPosition : Token → Position
  | .simple leaf => leaf.endPosition
  | .escaped leaf _ => leaf.endPosition
  | .group _ _ members => lastEndPosition members
  | .annotated _ token _ => token.endPosition
  | .indexed _ token _ => token.endPosition
  | .shadow _ token => token.endPosition

/-- The end position of the last of several tokens. -/
def lastEndPosition : List Token → Position
  | [] => .unpositioned
  | [token] => token.endPosition
  | _ :: next :: rest => lastEndPosition (next :: rest)

end

/-- A definition has to accept the value it classifies. -/
def checkAccepted (definition : Definition) (value : Text) : Except Fault Unit :=
  check (definition.accepts value) (.valueNotAccepted value definition.description)

def ofWord (definition : Definition) (value : Text) (position : Position) : Except Fault Token := do
  checkAccepted definition value
  let endPosition ← position.endOf value
  return .simple { definition, value, position, endPosition, types := [] }

/-- The character of an escape sequence, which is a backslash and one character. -/
def escapedCharacter? (value : Text) : Option Text :=
  match value.codes with
  | [first, code] => if first = Text.backslash then some (.ofCodes [code]) else none
  | _ => none

/-- Makes an escaped token from the backslash and the character behind it. -/
def ofEscape (value : Text) (position : Position) (definition : Option Definition) : Except Fault Token :=
  match escapedCharacter? value with
  | some character => do
    let definition := definition.getD (.escaped character)
    checkAccepted definition value
    let endPosition ← position.endOf value
    return .escaped { definition, value, position, endPosition, types := [] } character
  | none => .error (.notAnEscape value)

/-- Composes two or more tokens; without a definition the group is the only thing of its value. -/
def ofGroup (members : List Token) (definition : Option Definition) : Except Fault Token := do
  check (2 ≤ members.length) (.groupTooSmall members.length)
  let value := joinedValue members
  let definition := definition.getD (.exactly value)
  checkAccepted definition value
  return .group definition [] members

def annotate (token : Token) (metadata : Fields) : Token := .annotated token.types token metadata

def number (token : Token) (ordinal : Number) : Except Fault Token := do
  check ordinal.toNat?.isSome (.badOrdinal ordinal)
  return .indexed token.types token ordinal

/-- Hides a token; what is hidden stays as it is. -/
def hide : Token → Token
  | .shadow types token => .shadow types token
  | token => .shadow token.types token

/-- The token behind a shadow, and any other token itself. -/
def unhide : Token → Token
  | .shadow _ token => token
  | token => token

def withTypeList (token : Token) (types : List TokenType) : Token :=
  match token with
  | .simple leaf => .simple { leaf with types }
  | .escaped leaf character => .escaped { leaf with types } character
  | .group definition _ members => .group definition types members
  | .annotated _ token metadata => .annotated types token metadata
  | .indexed _ token ordinal => .indexed types token ordinal
  | .shadow _ token => .shadow types token

/-- Adds types to a list that keeps each once, in the order of their coming. -/
def addTypes (present : List TokenType) : List TokenType → List TokenType
  | [] => present
  | type :: rest => addTypes (if present.contains type then present else present ++ [type]) rest

def withTypes (token : Token) (types : List TokenType) : Token :=
  token.withTypeList (addTypes token.types types)

/-- Whether a token is hidden from rules. -/
def isShadow : Token → Bool
  | .shadow .. => true
  | _ => false

def isVisible (token : Token) : Bool := !token.isShadow

/-- Whether a token is composed of others. -/
def isGroup : Token → Bool
  | .group .. => true
  | _ => false

/-- The token inside of all annotations and numbers. -/
def unwrap : Token → Token
  | .annotated _ token _ => token.unwrap
  | .indexed _ token _ => token.unwrap
  | token => token

def members? : Token → Option (List Token)
  | .group _ _ members => some members
  | _ => none

mutual

/-- The leaves of what a token holds inside, where the token itself stands for what is no group. -/
def leavesWithin (outer : Token) : Token → List Token
  | .group _ _ members => allLeaves members
  | .annotated _ token _ => leavesWithin outer token
  | .indexed _ token _ => leavesWithin outer token
  | .simple _ => [outer]
  | .escaped .. => [outer]
  | .shadow .. => [outer]

/-- The leaves of several tokens, one token after the other. -/
def allLeaves : List Token → List Token
  | [] => []
  | token :: rest => leavesWithin token token ++ allLeaves rest

end

/-- The tokens that a token is finally composed of; a wrapper around what is no group stays around it. -/
def leaves (token : Token) : List Token := leavesWithin token token

theorem allLeaves_eq_flatMap (tokens : List Token) : allLeaves tokens = tokens.flatMap leaves := by
  induction tokens with
  | nil => simp [allLeaves]
  | cons token rest ih => simp [allLeaves, leaves, ih]

@[simp] theorem isShadow_hide (token : Token) : token.hide.isShadow = true := by
  cases token <;> rfl

@[simp] theorem types_withTypeList (token : Token) (types : List TokenType) : (token.withTypeList types).types = types := by
  cases token <;> rfl

@[simp] theorem value_hide (token : Token) : token.hide.value = token.value := by
  cases token <;> simp [hide, value, writeBefore]

mutual

theorem writeBefore_eq (after : List UInt16) :
    (token : Token) → writeBefore after token = token.value.units ++ after
  | .simple leaf => by simp [value, writeBefore]
  | .escaped leaf _ => by simp [value, writeBefore]
  | .group _ _ members => writeAllBefore_eq after members
  | .annotated _ token _ => writeBefore_eq after token
  | .indexed _ token _ => writeBefore_eq after token
  | .shadow _ token => writeBefore_eq after token

theorem writeAllBefore_eq (after : List UInt16) :
    (tokens : List Token) → writeAllBefore after tokens = (joinedValue tokens).units ++ after
  | [] => rfl
  | token :: rest => by
    simp only [joinedValue, writeAllBefore]
    rw [writeBefore_eq _ token, writeBefore_eq _ token, writeAllBefore_eq after rest, List.append_assoc]
    rfl

end

@[simp] theorem value_simple (leaf : Leaf) : (simple leaf).value = leaf.value := by simp [value, writeBefore]

@[simp] theorem value_escaped (leaf : Leaf) (character : Text) :
    (escaped leaf character).value = leaf.value := by
  simp [value, writeBefore]

@[simp] theorem value_group (definition : Definition) (types : List TokenType) (members : List Token) :
    (group definition types members).value = joinedValue members := rfl

@[simp] theorem value_annotated (types : List TokenType) (token : Token) (metadata : Fields) :
    (annotated types token metadata).value = token.value := rfl

@[simp] theorem value_indexed (types : List TokenType) (token : Token) (ordinal : Number) :
    (indexed types token ordinal).value = token.value := rfl

@[simp] theorem value_shadow (types : List TokenType) (token : Token) :
    (shadow types token).value = token.value := rfl

@[simp] theorem joinedValue_nil : joinedValue [] = ⟨[]⟩ := rfl

@[simp] theorem joinedValue_cons (token : Token) (rest : List Token) :
    joinedValue (token :: rest) = token.value ++ joinedValue rest :=
  congrArg Text.mk (writeBefore_eq _ token)

@[simp] theorem joinedValue_singleton (token : Token) : joinedValue [token] = token.value := rfl

theorem joinedValue_append (first second : List Token) :
    joinedValue (first ++ second) = joinedValue first ++ joinedValue second := by
  induction first with
  | nil => rfl
  | cons token rest ih => simp [ih, Text.append_assoc]

end Token

end TokenGrammar
