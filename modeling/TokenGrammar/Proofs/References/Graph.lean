import Mathlib.Algebra.BigOperators.Fin
import Mathlib.Data.Fintype.BigOperators
import Mathlib.Data.List.ReduceOption
import TokenGrammar.Proofs.Unbound

namespace TokenGrammar

/-- What a data property holds: a rule, a list with rules among its items, a text, or anything else. -/
inductive Held (Object : Type) where
  | rule (object : Object)
  | list (items : List (Option Object))
  | text (content : Text)
  | other

/-- A rule as an object: its kind, and its data properties in their order. -/
structure RuleObject (Object : Type) where
  kind : Text
  properties : List (String × Held Object)

structure RuleGraph (size : Nat) where
  object : Fin size → RuleObject (Fin size)

namespace Held

variable {α β : Type}

def rules : Held α → List α
  | .rule object => [object]
  | .list items => items.reduceOption
  | _ => []

def text? : Held α → Option Text
  | .text content => some content
  | _ => none

/-- What is held, with other objects in the place of its own. -/
def map (change : α → β) : Held α → Held β
  | .rule object => .rule (change object)
  | .list items => .list (items.map (Option.map change))
  | .text content => .text content
  | .other => .other

@[simp] theorem rules_map (change : α → β) (held : Held α) : (held.map change).rules = held.rules.map change := by
  cases held with
  | list items => exact List.reduceOption_map
  | _ => rfl

@[simp] theorem text?_map (change : α → β) (held : Held α) : (held.map change).text? = held.text? := by
  cases held <;> rfl

end Held

namespace RuleObject

variable {α β : Type}

def children (object : RuleObject α) : List α := object.properties.flatMap fun property => property.2.rules

/-- The text that an object has under a name. -/
def text? (object : RuleObject α) (name : String) : Option Text :=
  (object.properties.lookup name).bind Held.text?

/-- The name that has to be bound to a rule, for an object that is a rule looked up by its name. -/
def requiredName? (object : RuleObject α) : Option Text :=
  if object.kind = "recursive" ∧ (object.text? "name").isSome then object.text? "name"
  else if object.kind = "reference" ∧ object.text? "type" = some "rule" then object.text? "key"
  else none

/-- An object with others in the place of those that it shows. -/
def map (change : α → β) (object : RuleObject α) : RuleObject β where
  kind := object.kind
  properties := object.properties.map fun property => (property.1, property.2.map change)

@[simp] theorem children_map (change : α → β) (object : RuleObject α) :
    (object.map change).children = object.children.map change := by
  simp [children, map, List.flatMap_map, List.map_flatMap]

@[simp] theorem text?_map (change : α → β) (object : RuleObject α) (name : String) :
    (object.map change).text? name = object.text? name := by
  obtain ⟨kind, properties⟩ := object
  simp only [text?, map]
  induction properties with
  | nil => rfl
  | cons property rest ih =>
    obtain ⟨key, held⟩ := property
    rw [List.map_cons, List.lookup_cons, List.lookup_cons]
    cases name == key with
    | true => exact held.text?_map change
    | false => exact ih

@[simp] theorem requiredName?_map (change : α → β) (object : RuleObject α) :
    (object.map change).requiredName? = object.requiredName? := by
  simp only [requiredName?, text?_map]
  rfl

end RuleObject

namespace Rule

/-- What a property of a rule holds. -/
def Property.held : Property → Held Rule
  | .rule inner => .rule inner
  | .rules inners => .list (inners.map some)
  | .text content => .text content
  | _ => .other

def object (store : RuleStore) (rule : Rule) : RuleObject Rule where
  kind := rule.kind store
  properties := (rule.properties store).map fun property => (property.1, property.2.held)

theorem Property.rules_held (property : Property) : property.held.rules = property.children := by
  cases property with
  | rules rules =>
    show (rules.map some).filterMap id = rules
    rw [List.filterMap_map, Function.id_comp, List.filterMap_some]
  | _ => rfl

@[simp] theorem children_object (store : RuleStore) (rule : Rule) :
    (rule.object store).children = rule.children store := by
  simp [RuleObject.children, object, children, List.flatMap_map, Property.rules_held]

/-- What a caller's rule shows is no text. -/
theorem text?_object_external (store : RuleStore) (number : Nat) (name : String) :
    ((external number).object store).text? name = none := by
  cases parts : (store.external? number).bind ExternalRule.parts with
  | none => simp [RuleObject.text?, object, properties, parts]
  | some inner =>
    cases named : name == "parts" <;>
      simp [RuleObject.text?, object, properties, parts, List.lookup_cons, named, Property.held, Held.text?]

/-- A rule requires the name that it requires as an object. -/
@[simp] theorem requiredName?_object (store : RuleStore) (rule : Rule) :
    (rule.object store).requiredName? = rule.requiredName? := by
  cases rule with
  | external number => simp [RuleObject.requiredName?, text?_object_external, requiredName?]
  | matcher test => cases test <;> simp [object, kind, RuleObject.requiredName?, requiredName?]
  | lookaround direction => cases direction <;> simp [object, kind, RuleObject.requiredName?, requiredName?]
  | named name | selfReferring cell =>
    simp [object, properties, kind, RuleObject.requiredName?, RuleObject.text?, Property.held, Held.text?, requiredName?]
  | reference key how =>
    cases how <;>
      simp [object, properties, kind, RuleObject.requiredName?, RuleObject.text?, List.lookup_cons, Property.held,
        Held.text?, ReferenceKind.name, requiredName?]
  | _ => simp [object, kind, RuleObject.requiredName?, requiredName?]

end Rule

namespace RuleGraph

variable {size : Nat} {graph : RuleGraph size} {store : RuleStore} {rule : Fin size → Rule} {object : Fin size}

/-- The objects among the properties of an object. -/
def children (graph : RuleGraph size) (object : Fin size) : List (Fin size) := (graph.object object).children

def requiredName? (graph : RuleGraph size) (object : Fin size) : Option Text := (graph.object object).requiredName?

/-- An object shows itself, the objects among its properties, and what these show. -/
def Shows (graph : RuleGraph size) : Fin size → Fin size → Prop :=
  Relation.ReflTransGen fun object part => part ∈ graph.children object

/-- Whether an object shows one that requires a name. -/
def Requires (graph : RuleGraph size) (object : Fin size) (name : Text) : Prop :=
  ∃ inner, graph.Shows object inner ∧ graph.requiredName? inner = some name

/-- A graph depicts rules when its objects are these rules, with objects in the place of the rules that they show. Objects
that depict the same rule may be different ones. -/
def Depicts (graph : RuleGraph size) (store : RuleStore) (rule : Fin size → Rule) : Prop :=
  ∀ object, (graph.object object).map rule = (rule object).object store

namespace Depicts

theorem map_children (depicts : graph.Depicts store rule) (object : Fin size) :
    (graph.children object).map rule = (rule object).children store := by
  rw [← Rule.children_object, ← depicts object, RuleObject.children_map]
  rfl

theorem requiredName?_eq (depicts : graph.Depicts store rule) (object : Fin size) :
    graph.requiredName? object = (rule object).requiredName? := by
  rw [← Rule.requiredName?_object store, ← depicts object, RuleObject.requiredName?_map]
  rfl

/-- A rule shows what the objects depict that its object shows. -/
theorem shows_iff (depicts : graph.Depicts store rule) {shown : Rule} :
    (rule object).Shows store shown ↔ ∃ inner, graph.Shows object inner ∧ rule inner = shown := by
  constructor
  · intro shows
    induction shows with
    | refl => exact ⟨object, .refl, rfl⟩
    | tail _ child ih =>
      obtain ⟨outer, shows, rfl⟩ := ih
      rw [← depicts.map_children] at child
      obtain ⟨inner, among, rfl⟩ := List.mem_map.mp child
      exact ⟨inner, shows.tail among, rfl⟩
  · rintro ⟨inner, shows, rfl⟩
    induction shows with
    | refl => exact .refl
    | @tail outer inner _ child ih =>
      refine ih.tail ?_
      rw [← depicts.map_children]
      exact List.mem_map_of_mem child

theorem requires_iff (depicts : graph.Depicts store rule) {name : Text} :
    graph.Requires object name ↔ ∃ shown, (rule object).Shows store shown ∧ shown.requiredName? = some name := by
  simp only [Requires, depicts.shows_iff, depicts.requiredName?_eq]
  constructor
  · rintro ⟨inner, shows, requires⟩
    exact ⟨rule inner, ⟨inner, shows, rfl⟩, requires⟩
  · rintro ⟨_, ⟨inner, shows, rfl⟩, requires⟩
    exact ⟨inner, shows, requires⟩

end Depicts

end RuleGraph

end TokenGrammar
