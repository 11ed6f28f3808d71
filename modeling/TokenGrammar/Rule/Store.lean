import TokenGrammar.Captures
import TokenGrammar.Match
import TokenGrammar.Stream

namespace TokenGrammar

/-- What a caller's own rule does: it may answer anything, stop with a fault, move the stream and change the
captures. -/
structure ExternalOutcome where
  result : Except Fault (Option Match)
  index : Nat
  captures : Captures

structure ExternalRule where
  kind : Text
  parts : Option (List Rule)
  behave : TokenStream → Captures → ExternalOutcome

/-- Rules that refer to themselves or are supplied later keep what they stand for in a cell. The store also holds the rules
of callers; both are told apart by their numbers. -/
structure RuleStore where
  cells : Array (Option Rule) := #[]
  externals : Array ExternalRule := #[]

namespace RuleStore

/-- What a cell holds, once it is filled. -/
def content? (store : RuleStore) (cell : Nat) : Option Rule := (store.cells[cell]?).join

def external? (store : RuleStore) (number : Nat) : Option ExternalRule := store.externals[number]?

/-- A new cell, which holds nothing yet. -/
def newCell (store : RuleStore) : Nat × RuleStore :=
  (store.cells.size, { store with cells := store.cells.push none })

def fill (store : RuleStore) (cell : Nat) (rule : Rule) : RuleStore :=
  { store with cells := store.cells.setIfInBounds cell (some rule) }

/-- Supplies the rule that a lazy rule stands for, which happens once. -/
def setLazy (store : RuleStore) (cell : Nat) (rule : Rule) : Except Fault RuleStore :=
  match store.content? cell with
  | some _ => .error .lazyRuleSetAgain
  | none => .ok (store.fill cell rule)

/-- Takes in an external rule, which may name itself in what it does. -/
def addExternal (store : RuleStore) (make : Rule → ExternalRule) : Rule × RuleStore :=
  let rule := Rule.external store.externals.size
  (rule, { store with externals := store.externals.push (make rule) })

end RuleStore

namespace Rule

def kind (store : RuleStore) : Rule → Text
  | .always => "always"
  | .never => "never"
  | .matcher (.value ..) _ => "value"
  | .matcher (.pattern _) _ => "pattern"
  | .matcher (.length _) _ => "length"
  | .matcher (.custom ..) _ => "custom"
  | .matcher (.type _) _ => "type"
  | .sequence _ => "sequence"
  | .anyOf _ => "anyOf"
  | .allOf _ => "allOf"
  | .optional .. => "optional"
  | .repeated .. => "repeated"
  | .lookaround .ahead .. => "lookahead"
  | .lookaround .behind .. => "lookbehind"
  | .anchor .. => "anchor"
  | .boundary .. | .filledBoundary .. => "boundary"
  | .named _ | .selfReferring _ => "recursive"
  | .lazy _ => "lazy"
  | .group _ => "group"
  | .capture .. => "capture"
  | .reference .. => "reference"
  | .not _ => "not"
  | .external number =>
    match store.external? number with
    | some rule => rule.kind
    | none => ""

inductive Property where
  | text (content : Text)
  | flag (flag : Bool)
  | number (number : Number)
  | pattern (pattern : Pattern)
  | types (types : List TokenType)
  | absent
  | rule (rule : Rule)
  | rules (rules : List Rule)

/-- The end of a stretch that an anchor stands at. -/
def anchorPosition : Anchor → String
  | .startDocument | .startLine => "start"
  | .endDocument | .endLine => "end"

/-- The stretch at whose end an anchor stands. -/
def anchorScope : Anchor → String
  | .startDocument | .endDocument => "document"
  | .startLine | .endLine => "line"

def testProperties : TokenTest → List (String × Property)
  | .value content ignoreCase => [("text", .text content), ("ignoreCase", .flag ignoreCase)]
  | .pattern expression => [("regex", .pattern expression)]
  | .length range => [("min", .number (.ofNat range.least)), ("max", .number range.upperEnd)]
  | .custom description _ => [("description", .text description)]
  | .type types => [("types", .types types)]

/-- The named properties of a rule in their order. -/
def properties (store : RuleStore) : Rule → List (String × Property)
  | .always => []
  | .never => []
  | .matcher test negated => testProperties test ++ [("negated", .flag negated)]
  | .sequence rules => [("rules", .rules rules)]
  | .anyOf alternatives => [("alternatives", .rules alternatives)]
  | .allOf rules => [("rules", .rules rules)]
  | .optional rule negated => [("rule", .rule (rule.attempted negated))]
  | .repeated rule range negated =>
    [("rule", .rule rule), ("min", .number (.ofNat range.least)), ("max", .number range.upperEnd),
      ("negated", .flag negated)]
  | .lookaround _ rule negative => [("rule", .rule rule), ("negative", .flag negative)]
  | .anchor place negated =>
    [("position", .text (anchorPosition place)), ("scope", .text (anchorScope place)),
      ("negated", .flag negated)]
  | .boundary opening closing => [("open", .rule opening), ("body", .rule .always), ("close", .rule closing)]
  | .filledBoundary opening body closing =>
    [("open", .rule opening), ("body", .rule body), ("close", .rule closing)]
  | .named name => [("name", .text name)]
  | .selfReferring _ => [("name", .absent)]
  | .lazy cell => [("isSet", .flag (store.content? cell).isSome)]
  | .group rule => [("rule", .rule rule)]
  | .capture key rule => [("key", .text key), ("rule", .rule rule)]
  | .reference key kind => [("key", .text key), ("type", .text kind.name)]
  | .not rule => [("rule", .rule rule)]
  | .external number =>
    match (store.external? number).bind ExternalRule.parts with
    | some parts => [("parts", .rules parts)]
    | none => []

def Property.children : Property → List Rule
  | .rule child => [child]
  | .rules children => children
  | _ => []

def children (store : RuleStore) (rule : Rule) : List Rule :=
  (rule.properties store).flatMap fun property => property.2.children

section Children

variable (store : RuleStore) (rule : Rule)

@[simp] theorem children_sequence (rules : List Rule) : (sequence rules).children store = rules :=
  List.append_nil rules

@[simp] theorem children_anyOf (alternatives : List Rule) : (anyOf alternatives).children store = alternatives :=
  List.append_nil alternatives

@[simp] theorem children_allOf (rules : List Rule) : (allOf rules).children store = rules :=
  List.append_nil rules

@[simp] theorem children_optional (negated : Bool) :
    (optional rule negated).children store = [rule.attempted negated] := rfl

@[simp] theorem children_repeated (range : Range) (negated : Bool) :
    (repeated rule range negated).children store = [rule] := rfl

@[simp] theorem children_lookaround (direction : Direction) (negative : Bool) :
    (lookaround direction rule negative).children store = [rule] := rfl

@[simp] theorem children_boundary (opening closing : Rule) :
    (boundary opening closing).children store = [opening, .always, closing] := rfl

@[simp] theorem children_filledBoundary (opening body closing : Rule) :
    (filledBoundary opening body closing).children store = [opening, body, closing] := rfl

@[simp] theorem children_group : (group rule).children store = [rule] := rfl

@[simp] theorem children_capture (key : Text) : (capture key rule).children store = [rule] := rfl

@[simp] theorem children_not : (Rule.not rule).children store = [rule] := rfl

end Children

/-- The name that has to be bound to a rule for a rule to match. -/
def requiredName? : Rule → Option Text
  | .named name => some name
  | .reference key .rule => some key
  | _ => none

end Rule

end TokenGrammar
