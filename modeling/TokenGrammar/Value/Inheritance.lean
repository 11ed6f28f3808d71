import TokenGrammar.Value

namespace TokenGrammar.Value

/-- The key under which a record shows its parent. -/
def parentKey : Text := "__proto__"

def standardOperations : List String :=
  ["constructor", "hasOwnProperty", "isPrototypeOf", "propertyIsEnumerable", "toLocaleString", "toString",
    "valueOf", "__defineGetter__", "__defineSetter__", "__lookupGetter__", "__lookupSetter__"]

/-- The operations of lists besides those of the common ancestor. -/
def listOperations : List String :=
  ["at", "concat", "copyWithin", "entries", "every", "fill", "filter", "find", "findIndex", "findLast",
    "findLastIndex", "flat", "flatMap", "forEach", "includes", "indexOf", "join", "keys", "lastIndexOf", "map",
    "pop", "push", "reduce", "reduceRight", "reverse", "shift", "slice", "some", "sort", "splice", "toReversed",
    "toSorted", "toSpliced", "unshift", "values", "with"]

/-- The operation under a key among those of an owner. -/
def operation? (owner : String) (names : List String) (key : Text) : Option Value :=
  (names.find? fun name => Text.ofString name = key).map (.operation owner)

/-- What all descendants of the common ancestor inherit under a key, apart from the view of their parent. -/
def standard? : Text → Option Value := operation? "Object" standardOperations

/-- The items of a list under their places, counted from zero. -/
def numbered (items : List Value) : Fields :=
  items.zipIdx.map fun (item, place) => (Text.ofString s!"{place}", item)

/-- What a value or one of those that it descends from has under a key. -/
def held? (key : Text) : Value → Option Value
  | .ancestor | .operation .. => standard? key
  | .record fields => (Fields.valueAt fields key).or (standard? key)
  | .heir fields hidden parent => (Fields.valueAt fields key).or ((Fields.valueAt hidden key).or (held? key parent))
  | .function _ fields hidden => (Fields.valueAt fields key).or ((Fields.valueAt hidden key).or (standard? key))
  | .list items =>
    let size := (("length" : Text), Value.number (.ofNat items.length))
    (Fields.valueAt (size :: numbered items) key).or ((operation? "Array" listOperations key).or (standard? key))
  | _ => none

/-- Whether a value descends from the common ancestor, which is where records get the view of their parent from. -/
def descends : Value → Bool
  | .ancestor | .record _ | .list _ | .function .. | .operation .. => true
  | .heir _ _ parent => parent.descends
  | _ => false

def parent : Value → Value
  | .heir _ _ parent => parent
  | .record _ => .ancestor
  | _ => .null

/-- What a key of a value leads to. Only records are looked into. -/
def member? (value : Value) (key : Text) : Option Value :=
  if value.isRecord then
    (value.held? key).or (if key = parentKey ∧ value.descends then some value.parent else none)
  else none

/-- Follows a path from record to record; a path that leaves the records leads nowhere. -/
def follow (value : Value) : List Text → Option Value
  | [] => some value
  | key :: path => (value.member? key).bind fun next => next.follow path

/-- Whether a record can be given a value as its parent; there may be none at all, which is null. -/
def canBeParent : Value → Bool
  | .null | .list _ | .function .. | .operation .. | .ancestor | .record _ | .heir .. => true
  | _ => false

/-- A record with another parent; what can be no parent is passed over. -/
def adopt (record parent : Value) : Value :=
  if parent.canBeParent then
    match record with
    | .heir fields hidden _ => .heir fields hidden parent
    | other => .heir other.fields [] parent
  else record

/-- Stores a value in a record under a key of its own. -/
def put (record : Value) (key : Text) (value : Value) : Value :=
  match record with
  | .heir fields hidden parent => .heir (Entries.put fields key value) hidden parent
  | other => .record (Entries.put other.fields key value)

/-- Assigns a value to a key of a record. Under the key of the parent this replaces the parent, unless the key is an
ordinary one of the record. -/
def assign (record : Value) (key : Text) (value : Value) : Value :=
  if key = parentKey ∧ record.descends ∧ (record.held? key).isNone then record.adopt value else record.put key value

mutual

/-- Lays a value over what stands in its place: two records are laid over each other key by key, and everything else
hides what lies below. -/
def overlay (lower : Option Value) : Value → Value
  | .ancestor =>
    match lower.bind fields? with
    | some fields => .record fields
    | none => .ancestor
  | .record upper =>
    match lower.bind fields? with
    | some fields => overlayFields (.record fields) upper
    | none => .record upper
  | .heir upper hidden parent =>
    match lower.bind fields? with
    | some fields => overlayFields (.record fields) upper
    | none => .heir upper hidden parent
  | .undefined => .undefined
  | .null => .null
  | .boolean flag => .boolean flag
  | .number amount => .number amount
  | .integer amount => .integer amount
  | .text content => .text content
  | .symbol serial => .symbol serial
  | .function serial fields hidden => .function serial fields hidden
  | .operation owner name => .operation owner name
  | .list items => .list items

def overlayFields (lower : Value) : List (Text × Value) → Value
  | [] => lower
  | (key, value) :: rest => overlayFields (lower.assign key (overlay (lower.member? key) value)) rest

end

/-- What an enumeration of any value comes upon: the fields of a record or a function, the items of a list and the units
of a text under their places, and nothing for another one. Where there is no value at all, there is no enumeration. -/
def entries? : Value → Option Fields
  | .undefined | .null => none
  | .function _ fields _ => some fields
  | .list items => some (numbered items)
  | .text content => some (numbered (content.units.map fun unit => .text ⟨[unit]⟩))
  | value => some value.fields

end TokenGrammar.Value
