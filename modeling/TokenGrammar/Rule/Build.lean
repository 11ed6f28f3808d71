import TokenGrammar.Rule.Store

namespace TokenGrammar

namespace Range

/-- Reads a range from its two ends; the upper end may be infinite. -/
def create (badLeast badMost : Number → Fault) (outOfOrder : Number → Number → Fault)
    (least most : Number) : Except Fault Range :=
  match least.toNat? with
  | none => .error (badLeast least)
  | some lower =>
    if most = .infinity then .ok ⟨lower, none, nofun⟩
    else
      match most.toNat? with
      | none => .error (badMost most)
      | some upper =>
        if ordered : lower ≤ upper then
          .ok ⟨lower, some upper, fun _ equal => Option.some.inj equal ▸ ordered⟩
        else .error (outOfOrder most least)

end Range

namespace Rule

/-- Matches a token of the given value. -/
def ofValue (text : Text) (ignoreCase : Bool) : Except Fault Rule := do
  check (!text.isEmpty) .emptyValueText
  return .matcher (.value text ignoreCase) false

/-- Matches a token whose whole value matches a pattern. -/
def ofPattern (data : Pattern.CharacterData) (source : PatternSource) : Except Fault Rule :=
  if source.source.isEmpty then .error .emptyPattern
  else
    match Pattern.whole data source.source source.flags with
    | .ok expression => .ok (.matcher (.pattern expression) false)
    | .error problem => .error (.invalidPattern source.source problem)

/-- Matches a token whose value has a number of characters in the given range. -/
def ofLengths (least most : Number) : Except Fault Rule := do
  let range ← Range.create .badLengthMinimum .badLengthMaximum .lengthsOutOfOrder least most
  return .matcher (.length range) false

/-- Matches a token that a predicate accepts. -/
def ofPredicate (description : Text) (predicate : Token → Bool) : Rule :=
  .matcher (.custom description predicate) false

/-- Matches a token that carries all the given types. -/
def ofTypes (types : List TokenType) : Except Fault Rule := do
  check (!types.isEmpty) .noTypes
  return .matcher (.type types) false

def ofSequence (rules : List Rule) : Except Fault Rule := do
  check (!rules.isEmpty) .emptySequence
  return .sequence rules

/-- Matches the first of several rules that matches. -/
def ofChoice (alternatives : List Rule) : Except Fault Rule := do
  check (!alternatives.isEmpty) .emptyChoice
  return .anyOf alternatives

/-- Matches where all of several rules match, as far as the one that reaches farthest. -/
def ofConjunction (rules : List Rule) : Except Fault Rule := do
  check (!rules.isEmpty) .emptyConjunction
  return .allOf rules

/-- Matches a rule as often as a range allows. -/
def ofRepetitions (rule : Rule) (least most : Number) : Except Fault Rule := do
  let range ← Range.create .badRepetitionMinimum .badRepetitionMaximum .repetitionsOutOfOrder least most
  check (range.most ≠ some 0) .noRepetitions
  return .repeated rule range false

/-- Matches whatever a name is bound to. -/
def ofName (name : Text) : Except Fault Rule := do
  check (name ≠ "") .emptyRecursionName
  return .named name

/-- Keeps what a rule matches under a key. -/
def ofCapture (key : Text) (rule : Rule) : Except Fault Rule := do
  check (key ≠ "") .emptyCaptureRuleKey
  return .capture key rule

/-- Matches what a key is bound to. -/
def ofReference (key : Text) (kind : ReferenceKind) : Except Fault Rule := do
  check (key ≠ "") .emptyReferenceKey
  return .reference key kind

section Storing

variable {m : Type → Type} [Monad m] [MonadStateOf RuleStore m]

/-- Makes a new cell, which holds nothing yet. -/
def newCell : m Nat := modifyGet RuleStore.newCell

/-- Makes a rule that refers to itself. While its inside is made the rule stands for nothing. -/
def ofRecursion (inside : Rule → m Rule) : m Rule := do
  let cell ← newCell
  let body ← inside (.selfReferring cell)
  modify fun store : RuleStore => store.fill cell body
  return .selfReferring cell

/-- Makes a rule that refers to itself between an opening and a closing rule. -/
def ofEnclosedRecursion (opening closing : Rule) (inside : Rule → m Rule) : m Rule :=
  ofRecursion fun self => do return .sequence [opening, ← inside self, closing]

/-- Matches an opening rule, content that may refer back by name, and a closing rule, all of which have to be
given. -/
def ofEnclosure [MonadExceptOf Fault m] (opening : Rule) (content closing : Option Rule) : m Rule :=
  match content, closing with
  | some content, some closing => ofRecursion fun _ => return .sequence [opening, content, closing]
  | _, _ => throw Fault.incompleteRecursion

/-- Makes a rule that stands for a rule supplied later. -/
def newLazy : m Rule := do return .lazy (← newCell)

/-- Supplies the rule that a lazy rule stands for, which happens once. -/
def setLazy [MonadExceptOf Fault m] (cell : Nat) (rule : Rule) : m Unit := do
  match (← getThe RuleStore).setLazy cell rule with
  | .ok store => set store
  | .error fault => throw fault

/-- Makes a rule of what a caller supplies. -/
def ofExternal (make : Rule → ExternalRule) : m Rule :=
  modifyGet fun store : RuleStore => store.addExternal make

end Storing

end Rule

end TokenGrammar
