import TokenGrammar.Entries
import TokenGrammar.Number
import TokenGrammar.Text.Basic

namespace TokenGrammar

/-- Values of settings and of metadata. Symbols and functions are told apart by serial numbers. A record descends from
the common ancestor of all records; an heir descends from a parent of its own, and may have hidden values that no
enumeration of its fields comes upon. -/
inductive Value where
  | undefined
  | null
  | boolean (flag : Bool)
  | number (number : Number)
  | integer (amount : Int)
  | text (text : Text)
  | symbol (serial : Nat)
  | function (serial : Nat) (fields hidden : List (Text × Value))
  | operation (owner name : String)
  | list (items : List Value)
  | ancestor
  | record (fields : List (Text × Value))
  | heir (fields hidden : List (Text × Value)) (parent : Value)

instance : Inhabited Value := ⟨.null⟩

abbrev Fields := Entries Text Value

namespace Fields

def named (entries : List (String × Value)) : Fields := entries.map fun (name, value) => (.ofString name, value)

def valueAt (fields : Fields) (key : Text) : Option Value := List.lookup key fields

theorem valueAt_put (fields : Fields) (key other : Text) (value : Value) :
    Fields.valueAt (fields.put key value) other = if other = key then some value else fields.valueAt other :=
  fields.lookup_put key other value

end Fields

namespace Value

/-- The fields of a record, which are what an enumeration of it comes upon; the common ancestor has none. -/
def fields? : Value → Option Fields
  | .ancestor => some []
  | .record fields | .heir fields _ _ => some fields
  | _ => none

def isRecord (value : Value) : Bool := value.fields?.isSome

/-- The fields of a value, if it is a record. -/
def fields (value : Value) : Fields := value.fields?.getD []

/-- Stores a value at the end of a path, making a record of whatever else stands on the way. -/
def store (fields : Fields) : List Text → Value → Fields
  | [], _ => fields
  | [key], value => Entries.put fields key value
  | key :: next :: path, value =>
    let inner := ((Fields.valueAt fields key).map Value.fields).getD []
    Entries.put fields key (.record (store inner (next :: path) value))

/-- Nothing, false, zero, what is not a number and the empty text do not count as yes. -/
def isTruthy : Value → Bool
  | .undefined | .null => false
  | .boolean flag => flag
  | .number .notANumber => false
  | .number amount => !amount.same 0
  | .integer amount => amount ≠ 0
  | .text content => !content.isEmpty
  | _ => true

end Value

end TokenGrammar
