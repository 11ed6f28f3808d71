import TokenGrammar.Text.LetterCase
import TokenGrammar.Value

namespace TokenGrammar.Environment

/-- The opening of the names of all variables that hold settings. -/
def opening : List Char := "TOKENLOOM_".toList

/-- The part of a variable's name behind the common opening. -/
def stripOpening? (name : List Char) : Option (List Char) :=
  if opening.isPrefixOf name then some (name.drop opening.length) else none

/-- Splits at each double underscore, from the left. -/
def splitRecords : List Char → List (List Char)
  | [] => [[]]
  | '_' :: '_' :: rest => [] :: splitRecords rest
  | character :: rest =>
    match splitRecords rest with
    | [] => [[character]]
    | segment :: segments => (character :: segment) :: segments

/-- Whether an underscore raises the character behind it. -/
def isRaisable (character : Char) : Bool :=
  ('a' ≤ character && character ≤ 'z') || ('0' ≤ character && character ≤ '9')

/-- Takes out the underscores that raise the character behind them. -/
def raiseWords : List Char → List Char
  | [] => []
  | ['_'] => ['_']
  | '_' :: character :: rest =>
    if isRaisable character then character.toUpper :: raiseWords rest
    else '_' :: raiseWords (character :: rest)
  | character :: rest => character :: raiseWords rest

def splitPoints {α : Type} [DecidableEq α] (point : α) : List α → List (List α)
  | [] => [[]]
  | entry :: rest =>
    if entry = point then [] :: splitPoints point rest
    else
      match splitPoints point rest with
      | [] => [[entry]]
      | segment :: segments => (entry :: segment) :: segments

/-- The keys of the setting that a variable names; a point in a name parts records as well. -/
def keys? (name : String) : Option (List String) :=
  (stripOpening? name.toList).map fun rest =>
    ((splitRecords (Text.ofChars rest).lowerCase.chars).map raiseWords).flatMap (splitPoints '.') |>.map String.ofList

/-- The value that the text of a variable stands for. -/
def valueOf (text : String) : Value :=
  if text = "1" ∨ text = "true" then .boolean true
  else if text = "0" ∨ text = "false" ∨ text = "" then .boolean false
  else if text.toList.all Char.isDigit then
    .number (Number.nearest (text.toList.foldl (fun count digit => count * 10 + (digit.toNat - '0'.toNat)) 0))
  else .text text

/-- The settings of variables, a later one over an earlier one. -/
def settings (environment : List (String × String)) : Fields :=
  environment.foldl (fun fields entry =>
    match keys? entry.1 with
    | some keys => Value.store fields (keys.map Text.ofString) (valueOf entry.2)
    | none => fields) []

end TokenGrammar.Environment
