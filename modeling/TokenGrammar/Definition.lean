import TokenGrammar.Fault
import TokenGrammar.Text.LetterCase

namespace TokenGrammar

/-- The literal definitions accept one spelling, `exactly` is the class of one composite value, and a word is
anything that is not empty. -/
inductive Definition where
  | char (character : Text)
  | string (word : Text) (ignoreCase : Bool)
  | escaped (character : Text)
  | word
  | exactly (value : Text)
  | predicate (description : Text) (accepts : Text → Bool)

namespace Definition

def escapeOf (character : Text) : Text := .ofString "\\" ++ character

/-- Whether a word belongs to a definition. -/
def accepts : Definition → Text → Bool
  | .char character, value => value == character
  | .string expected ignoreCase, value => value.agrees expected ignoreCase
  | .escaped character, value => value == escapeOf character
  | .word, value => !value.isEmpty
  | .exactly expected, value => value == expected
  | .predicate _ test, value => test value

def description : Definition → Text
  | .char character => "char " ++ Text.quote character
  | .string expected ignoreCase =>
    "string " ++ Text.quote expected ++ (if ignoreCase then " (ignore case)" else "")
  | .escaped character => "escaped " ++ Text.quote (escapeOf character)
  | .word => "word"
  | .exactly value => "group " ++ Text.quote value
  | .predicate description _ => description

inductive LiteralKind where
  | char
  | string
  | escaped
  deriving DecidableEq

/-- The kind of a definition that accepts one spelling. -/
def literalKind? : Definition → Option LiteralKind
  | .char _ => some .char
  | .string .. => some .string
  | .escaped _ => some .escaped
  | _ => none

/-- Whether a definition accepts one spelling, up to case. -/
def isLiteral (definition : Definition) : Bool := definition.literalKind?.isSome

/-- The text that a literal definition was made from: an escape keeps only its character. -/
def token? : Definition → Option Text
  | .char token | .string token _ | .escaped token => some token
  | _ => none

/-- The spelling that a literal definition accepts. -/
def literal? : Definition → Option Text
  | .char spelling | .string spelling _ => some spelling
  | .escaped character => some (escapeOf character)
  | _ => none

def ofCharacter (content : Text) : Except Fault Definition :=
  if content.length = 1 then .ok (.char content) else .error (.notOneCharacter content)

def ofString (content : Text) (ignoreCase : Bool) : Except Fault Definition :=
  if content.isEmpty then .error .emptyStringDefinition else .ok (.string content ignoreCase)

/-- The definition of the escape sequence of one character. -/
def ofEscaped (content : Text) : Except Fault Definition :=
  if content.length = 1 then .ok (.escaped content) else .error (.notOneEscapedCharacter content)

/-- Joins the spellings of literal definitions; the first definition that has none is at fault. -/
def joinLiterals : List Definition → Except Fault Text
  | [] => .ok ⟨[]⟩
  | definition :: rest =>
    match definition.literal? with
    | some spelling => return spelling ++ (← joinLiterals rest)
    | none => .error (.notLiteral definition.description)

/-- The definition of several literals written one after the other; a single definition stays as it is. -/
def combine : List Definition → Except Fault Definition
  | [] => .error .noDefinitions
  | [definition] => .ok definition
  | definitions => do ofString (← joinLiterals definitions) false

end Definition

end TokenGrammar
