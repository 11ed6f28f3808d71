import Mathlib.Order.Preorder.Chain
import TokenGrammar.Proofs.Algebra.Conjunctions
import TokenGrammar.Proofs.Algebra.Reversal

namespace TokenGrammar

namespace TokenType

variable {type ancestor : TokenType}

theorem isTypeOf_refining {serial : Nat} {name : Text} {superType : TokenType} :
    (refining serial name superType).isTypeOf ancestor = true ↔
      refining serial name superType = ancestor ∨ superType.isTypeOf ancestor = true := by
  simp [isTypeOf]

theorem isTypeOf_root {serial : Nat} {name : Text} :
    (root serial name).isTypeOf ancestor = true ↔ root serial name = ancestor := by
  simp [isTypeOf]

/-- A type is of the types that stand in its hierarchy. -/
theorem isTypeOf_iff_mem : type.isTypeOf ancestor = true ↔ ancestor ∈ type.hierarchy := by
  induction type with
  | root serial name => rw [isTypeOf_root, hierarchy, List.mem_singleton, eq_comm]
  | refining serial name superType ih =>
    rw [isTypeOf_refining, ih, hierarchy, List.mem_append, List.mem_singleton, eq_comm, or_comm]

/-- A hierarchy ends with its type. -/
theorem getLast?_hierarchy (type : TokenType) : type.hierarchy.getLast? = some type := by
  cases type <;> simp [hierarchy]

theorem mem_hierarchy_self (type : TokenType) : type ∈ type.hierarchy :=
  List.mem_of_getLast? type.getLast?_hierarchy

theorem hierarchy_injective : Function.Injective hierarchy := by
  intro first second same
  have last := first.getLast?_hierarchy
  rw [same, getLast?_hierarchy] at last
  exact (Option.some.inj last).symm

/-- A type is of another one when its hierarchy begins with that of the other. -/
theorem isTypeOf_iff_begins : type.isTypeOf ancestor = true ↔ ancestor.hierarchy <+: type.hierarchy := by
  refine ⟨fun holds => ?_, fun begins => isTypeOf_iff_mem.mpr (begins.subset ancestor.mem_hierarchy_self)⟩
  induction type with
  | root serial name =>
    cases isTypeOf_root.mp holds
    exact List.prefix_rfl
  | refining serial name superType ih =>
    rcases isTypeOf_refining.mp holds with rfl | above
    · exact List.prefix_rfl
    · exact (ih above).trans (List.prefix_append ..)

theorem isTypeOf_refl (type : TokenType) : type.isTypeOf type = true := isTypeOf_iff_begins.mpr List.prefix_rfl

theorem isTypeOf_trans {first second third : TokenType} (below : first.isTypeOf second = true)
    (above : second.isTypeOf third = true) : first.isTypeOf third = true :=
  isTypeOf_iff_begins.mpr ((isTypeOf_iff_begins.mp above).trans (isTypeOf_iff_begins.mp below))

theorem isTypeOf_antisymm {first second : TokenType} (below : first.isTypeOf second = true)
    (above : second.isTypeOf first = true) : first = second :=
  hierarchy_injective ((isTypeOf_iff_begins.mp above).eq_of_length_le (isTypeOf_iff_begins.mp below).length_le)

/-- Of two types that a type is of, one is of the other. -/
theorem isTypeOf_total {first second : TokenType} (isFirst : type.isTypeOf first = true)
    (isSecond : type.isTypeOf second = true) : first.isTypeOf second = true ∨ second.isTypeOf first = true := by
  simp only [isTypeOf_iff_begins] at *
  exact (List.prefix_or_prefix_of_prefix isFirst isSecond).symm

end TokenType

namespace TypeRegistry

variable {registry registry' : TypeRegistry} {name : Text} {superType : Option TokenType} {type ancestor : TokenType}

/-- Types are made one after the other, each by itself or as one that refines an earlier one. -/
inductive Made : TypeRegistry → Prop
  | empty : Made {}
  | create {registry registry' : TypeRegistry} {name : Text} {superType : Option TokenType} {type : TokenType}
      (made : Made registry) (known : ∀ ancestor ∈ superType, ancestor ∈ registry.types)
      (creates : registry.create name superType = .ok (type, registry')) : Made registry'

/-- A new type comes behind all others; its hierarchy is that of the type it refines, and itself. -/
theorem create_makes (creates : registry.create name superType = .ok (type, registry')) :
    registry'.types = registry.types.push type ∧ type.serial = registry.types.size ∧
      type.hierarchy = (superType.map TokenType.hierarchy).getD [] ++ [type] := by
  obtain ⟨-, made⟩ := check_bind_eq_ok_iff.mp creates
  cases superType <;> cases made <;> exact ⟨rfl, rfl, rfl⟩

theorem Made.serial_eq (made : registry.Made) {place : Nat} (there : registry.types[place]? = some type) :
    type.serial = place := by
  induction made generalizing type place with
  | empty => simp at there
  | create made known creates ih =>
    obtain ⟨types_eq, serial_eq, -⟩ := create_makes creates
    rw [types_eq, Array.getElem?_push] at there
    split at there
    · next last =>
      cases there
      rw [serial_eq, last]
    · exact ih there

/-- The hierarchy of a type is made of types that were made. -/
theorem Made.mem_of_mem_hierarchy (made : registry.Made) (inside : type ∈ registry.types)
    (above : ancestor ∈ type.hierarchy) : ancestor ∈ registry.types := by
  induction made generalizing type ancestor with
  | empty => simp at inside
  | @create registry _ _ superType new made known creates ih =>
    obtain ⟨types_eq, -, hierarchy_eq⟩ := create_makes creates
    rw [types_eq, Array.mem_push] at inside ⊢
    rcases inside with inside | rfl
    · exact .inl (ih inside above)
    · rw [hierarchy_eq, List.mem_append, List.mem_singleton] at above
      refine above.imp_left fun above => ?_
      cases superType with
      | none => cases above
      | some superType => exact ih (known superType rfl) above

/-- Types made in one registry are apart from each other and partially ordered, with chains of types above each. -/
structure OrdersTypes (registry : TypeRegistry) : Prop where
  apart : ∀ (place place' : Nat) (type : TokenType), registry.types[place]? = some type →
    registry.types[place']? = some type → place = place'
  refl : ∀ type ∈ registry.types, type.isTypeOf type = true
  antisymm : ∀ first ∈ registry.types, ∀ second ∈ registry.types,
    first.isTypeOf second = true → second.isTypeOf first = true → first = second
  trans : ∀ first ∈ registry.types, ∀ second ∈ registry.types, ∀ third ∈ registry.types,
    first.isTypeOf second = true → second.isTypeOf third = true → first.isTypeOf third = true
  chain : ∀ type ∈ registry.types, IsChain (fun first second => first.isTypeOf second = true)
    { ancestor | ancestor ∈ registry.types ∧ type.isTypeOf ancestor = true }
  isTypeOf_iff : ∀ type ∈ registry.types, ∀ ancestor, type.isTypeOf ancestor = true ↔ ancestor ∈ type.hierarchy
  closed : ∀ type ∈ registry.types, ∀ ancestor ∈ type.hierarchy, ancestor ∈ registry.types

theorem Made.ordersTypes (made : registry.Made) : registry.OrdersTypes where
  apart _ _ _ there there' := (made.serial_eq there).symm.trans (made.serial_eq there')
  refl type _ := type.isTypeOf_refl
  antisymm _ _ _ _ := TokenType.isTypeOf_antisymm
  trans _ _ _ _ _ _ := TokenType.isTypeOf_trans
  chain _ _ := fun _ isFirst _ isSecond _ => TokenType.isTypeOf_total isFirst.2 isSecond.2
  isTypeOf_iff _ _ _ := TokenType.isTypeOf_iff_mem
  closed _ inside _ := made.mem_of_mem_hierarchy inside

end TypeRegistry

namespace Token

variable {token token' : Token}

theorem mem_addTypes {present added : List TokenType} {type : TokenType} :
    type ∈ addTypes present added ↔ type ∈ present ∨ type ∈ added := by
  induction added generalizing present with
  | nil => simp [addTypes]
  | cons first rest ih =>
    rw [addTypes, ih, List.mem_cons]
    split
    · next known =>
      have inside : first ∈ present := List.contains_iff_mem.mp known
      constructor
      · exact Or.imp_right .inr
      · rintro (before | rfl | after)
        exacts [.inl before, .inl inside, .inr after]
    · rw [List.mem_append, List.mem_singleton, or_assoc]

/-- A token is retyped when types are added to it, by hand or when an action classifies the tokens of a match. -/
inductive Retyped : Token → Token → Prop
  | withTypes (token : Token) (types : List TokenType) : Retyped token (token.withTypes types)
  | classify {classifier : Token → List TokenType} {store : RuleStore} {captures : Captures} {found : Match} {edit : Edit}
      {place : Nat} {token token' : Token}
      (classifies : (Action.classify classifier).apply store captures found = .ok edit)
      (before : found.tokens[place]? = some token) (after : edit.tokens[place]? = some token') : Retyped token token'

theorem Retyped.exists_withTypes (retyped : Retyped token token') : ∃ types, token' = token.withTypes types := by
  cases retyped with
  | withTypes _ types => exact ⟨types, rfl⟩
  | classify classifies before after =>
    cases classifies
    rw [List.getElem?_map, before] at after
    cases after
    exact ⟨_, rfl⟩

/-- A token keeps the types that it has. -/
theorem subset_types_of_retyped (retyped : Relation.ReflTransGen Retyped token token') :
    token.types ⊆ token'.types := by
  induction retyped with
  | refl => exact List.Subset.refl _
  | tail _ last ih =>
    obtain ⟨types, rfl⟩ := last.exists_withTypes
    intro type inside
    rw [withTypes, types_withTypeList, mem_addTypes]
    exact .inl (ih inside)

end Token

namespace TokenTest

variable {types types' : List TokenType} {token token' : Token}

theorem accepts_type_iff :
    (TokenTest.type types).accepts token = true ↔
      ∀ type ∈ types, ∃ actual ∈ token.types, actual.isTypeOf type = true := by
  simp [accepts]

/-- What carries the types asked for carries them among more types, and carries those that they refine. -/
theorem accepts_type_mono (accepts : (TokenTest.type types).accepts token = true) (carried : token.types ⊆ token'.types)
    (refined : List.Forall₂ (fun type ancestor => type.isTypeOf ancestor = true) types types') :
    (TokenTest.type types').accepts token' = true := by
  rw [accepts_type_iff] at accepts ⊢
  intro ancestor inside
  obtain ⟨place, bound, rfl⟩ := List.getElem_of_mem inside
  have bound' : place < types.length := refined.length_eq ▸ bound
  have isAncestor : types[place].isTypeOf types'[place] = true := refined.get bound' bound
  obtain ⟨actual, carries, isType⟩ := accepts _ (List.getElem_mem bound')
  exact ⟨actual, carried carries, TokenType.isTypeOf_trans isType isAncestor⟩

end TokenTest

namespace Rule

variable {world : World} {rule rule' : Rule} {types types' : List TokenType} {token token' : Token}
  {situation situation' : Situation}

theorem ofTypes_eq_ok_iff : ofTypes types = .ok rule ↔ types ≠ [] ∧ rule = .matcher (.type types) false := by
  rw [ofTypes, check_bind_eq_ok_iff, Bool.not_eq_true', List.isEmpty_eq_false_iff]
  exact and_congr_right fun _ => ⟨fun same => (Except.ok.inj same).symm, fun same => congrArg Except.ok same.symm⟩

theorem ofConjunction_of_ne_nil {rules : List Rule} (filled : rules ≠ []) : ofConjunction rules = .ok (.allOf rules) :=
  check_bind_eq_ok_iff.mpr ⟨by simpa using filled, rfl⟩

/-- The rules that ask for one type each. -/
def singles (types : List TokenType) : List Rule := types.map fun type => .matcher (.type [type]) false

theorem mapM_ofTypes (types : List TokenType) : types.mapM (fun type => ofTypes [type]) = .ok (singles types) := by
  induction types with
  | nil => rfl
  | cons type rest ih =>
    rw [List.mapM_cons, ih]
    rfl

/-- A rule for single tokens matches where the next visible token passes. -/
theorem matches_matcher_iff {test : TokenTest} {negated : Bool} :
    (Rule.matcher test negated).Matches world situation ↔
      ∃ token, situation.stream.current? = some token ∧ (test.accepts token != negated) = true := by
  have goes (next : TokenStream) := @goesTo_some_iff_of_isMatcher world (.matcher test negated)
    situation.memory.captures situation.stream next rfl
  simp only [matches_iff_goesTo, goes, accepts, TokenStream.read?]
  cases situation.stream.current? <;> simp

/-- Where a rule comes to an answer, it fails exactly if it does not match. -/
theorem Yields.fails_iff {found : Option Match} {after : Situation} (yields : rule.Yields world situation found after) :
    rule.Fails world situation ↔ ¬rule.Matches world situation := by
  rw [yields.matchesWhen.matches_iff, yields.matchesWhen.fails_iff, Bool.not_eq_true]

/-- A rule for several types matches where the rules for the single ones do. -/
theorem matches_type_iff (filled : types ≠ []) :
    (Rule.matcher (.type types) false).Matches world situation ↔
      ∀ single ∈ singles types, single.Matches world situation := by
  simp only [singles, List.forall_mem_map, matches_matcher_iff, Bool.bne_false, TokenTest.accepts_type_iff,
    List.forall_mem_singleton]
  constructor
  · intro holds type inside
    obtain ⟨token, next, carries⟩ := holds
    exact ⟨token, next, carries type inside⟩
  · intro holds
    obtain ⟨first, isFirst⟩ := List.exists_mem_of_ne_nil types filled
    obtain ⟨token, next, -⟩ := holds first isFirst
    refine ⟨token, next, fun type inside => ?_⟩
    obtain ⟨token', next', carries⟩ := holds type inside
    obtain rfl := Option.some.inj (next.symm.trans next')
    exact carries

theorem singles_isMatcher : ∀ single ∈ singles types, single.isMatcher = true := by
  simp [singles, isMatcher]

theorem singles_steady : ∀ single ∈ singles types, single.IsSteady world := steady_of_isMatcher singles_isMatcher

theorem matches_allOf_singles_iff (filled : types ≠ []) :
    (Rule.allOf (singles types)).Matches world situation ↔ ∀ single ∈ singles types, single.Matches world situation := by
  simp only [matches_iff_goesTo]
  exact goesTo_allOf_some_iff singles_steady (by simpa [singles] using filled)

/-- The conjunction of rules for single types comes to an answer everywhere. -/
theorem exists_allOf_singles_yields (world : World) (types : List TokenType) (situation : Situation) :
    ∃ found after, (Rule.allOf (singles types)).Yields world situation found after := by
  obtain ⟨result, goes⟩ := @exists_goesTo_allOf world (singles types) situation.memory.captures situation.stream
    singles_steady fun single inside => ⟨_, (goesTo_iff_of_isMatcher (singles_isMatcher single inside)).mpr rfl⟩
  obtain ⟨found, after, yields, -⟩ := goes.exists_yields situation.memory.notices
  exact ⟨found, after, yields⟩

/-- A rule for types answers everywhere as the conjunction of rules for the single types does. It takes a token when
it takes one with fewer types, and so does a rule that asks for types above those it asks for. -/
structure Subsumes (world : World) (types : List TokenType) (rule : Rule) : Prop where
  singly : ∃ singles both, types.mapM (fun type => ofTypes [type]) = .ok singles ∧ ofConjunction singles = .ok both ∧
    ∀ situation, (rule.Matches world situation ↔ both.Matches world situation) ∧
      (rule.Fails world situation ↔ both.Fails world situation)
  retyped : ∀ token token' situation situation', Relation.ReflTransGen Token.Retyped token token' →
    situation.stream.current? = some token → situation'.stream.current? = some token' →
      rule.Matches world situation → rule.Matches world situation'
  above : ∀ types', List.Forall₂ (fun type ancestor => type.isTypeOf ancestor = true) types types' →
    ∃ rule', ofTypes types' = .ok rule' ∧ ∀ situation, rule.Matches world situation → rule'.Matches world situation

theorem subsumes_of_ofTypes (made : ofTypes types = .ok rule) : rule.Subsumes world types := by
  obtain ⟨filled, rfl⟩ := ofTypes_eq_ok_iff.mp made
  refine ⟨⟨singles types, .allOf (singles types), mapM_ofTypes types, ?_, fun situation => ?_⟩, ?_, ?_⟩
  · exact ofConjunction_of_ne_nil (by simpa [singles] using filled)
  · obtain ⟨_, _, answers⟩ := exists_matcher_yields world (.type types) false situation
    obtain ⟨_, _, answers'⟩ := exists_allOf_singles_yields world types situation
    have same := (@matches_type_iff world types situation filled).trans (matches_allOf_singles_iff filled).symm
    exact ⟨same, answers.fails_iff.trans ((not_congr same).trans answers'.fails_iff.symm)⟩
  · intro token token' situation situation' retyped next next' holds
    obtain ⟨_, first, accepts⟩ := matches_matcher_iff.mp holds
    obtain rfl := Option.some.inj (next.symm.trans first)
    rw [Bool.bne_false] at accepts
    refine matches_matcher_iff.mpr ⟨token', next', ?_⟩
    rw [Bool.bne_false]
    exact TokenTest.accepts_type_mono accepts (Token.subset_types_of_retyped retyped)
      (List.forall₂_same.mpr fun type _ => type.isTypeOf_refl)
  · intro types' refined
    have filled' : types' ≠ [] := fun empty => filled (List.forall₂_nil_right_iff.mp (empty ▸ refined))
    refine ⟨_, ofTypes_eq_ok_iff.mpr ⟨filled', rfl⟩, fun situation holds => ?_⟩
    obtain ⟨token, next, accepts⟩ := matches_matcher_iff.mp holds
    rw [Bool.bne_false] at accepts
    refine matches_matcher_iff.mpr ⟨token, next, ?_⟩
    rw [Bool.bne_false]
    exact TokenTest.accepts_type_mono accepts (List.Subset.refl _) refined

/-- The types made one after the other are partially ordered and their hierarchies are the chains above them; and a rule
can be made of any types, if there are some, and then it asks for each of them or for one that refines it. -/
theorem type_subsumption {registry : TypeRegistry} (made : registry.Made) (world : World) :
    registry.OrdersTypes ∧
    ∀ types, ((∃ rule, ofTypes types = .ok rule) ↔ types ≠ []) ∧
      ((∃ both, ofConjunction (singles types) = .ok both) ↔ types ≠ []) ∧
      ∀ rule, ofTypes types = .ok rule → rule.Subsumes world types := by
  refine ⟨made.ordersTypes, fun types => ⟨?_, ?_, fun rule => subsumes_of_ofTypes⟩⟩
  · simp only [ofTypes_eq_ok_iff, exists_and_left, exists_eq, and_true]
  · refine ⟨fun both filled => ?_, fun filled => ⟨_, ofConjunction_of_ne_nil (by simpa [singles] using filled)⟩⟩
    obtain ⟨_, both⟩ := both
    cases filled
    cases both

end Rule

namespace Brackets

def bracket : TokenType := .root 0 "Bracket"

/-- The type of round brackets, which refines that of brackets. -/
def roundBracket : TokenType := .refining 1 "Round" bracket

/-- Another type of the same name as that of brackets. -/
def otherBracket : TokenType := .root 2 "Bracket"

def types : TypeRegistry := ⟨#[bracket, roundBracket, otherBracket]⟩

theorem types_made : types.Made := by
  have first : (⟨#[bracket]⟩ : TypeRegistry).Made := by
    have creates : TypeRegistry.create {} "Bracket" none = .ok (bracket, ⟨#[bracket]⟩) := rfl
    exact .create .empty (by simp) creates
  have second : (⟨#[bracket, roundBracket]⟩ : TypeRegistry).Made := by
    have creates : TypeRegistry.create ⟨#[bracket]⟩ "Round" (some bracket) =
        .ok (roundBracket, ⟨#[bracket, roundBracket]⟩) := rfl
    exact .create first (by simp) creates
  have creates : TypeRegistry.create ⟨#[bracket, roundBracket]⟩ "Bracket" none = .ok (otherBracket, types) := rfl
  exact .create second (by simp) creates

/-- The place in front of an opening bracket of some types. -/
def typed (types : List TokenType) : Situation := ⟨.ofTokens [opening.withTypes types], {}⟩

end Brackets

namespace Rule

open Brackets in
/-- A rule for round brackets takes an opening bracket of that type, also when it gets another type of the name
Bracket, and a rule for brackets takes it as well; but it does not take a bracket of the other type alone. -/
theorem roundBracket_matches_bracket :
    Brackets.types.Made ∧ bracket.name = otherBracket.name ∧ bracket ≠ otherBracket ∧
      ∃ rule rule', ofTypes [roundBracket] = .ok rule ∧ ofTypes [bracket] = .ok rule' ∧
        rule.Matches world (typed [roundBracket]) ∧ rule.Matches world (typed [roundBracket, otherBracket]) ∧
        rule'.Matches world (typed [roundBracket]) ∧ rule'.Fails world (typed [otherBracket]) := by
  obtain ⟨orders, laws⟩ := type_subsumption types_made world
  obtain ⟨-, -, subsumes⟩ := laws [roundBracket]
  have makes : ofTypes [roundBracket] = .ok (.matcher (.type [roundBracket]) false) := rfl
  have next : (typed [roundBracket]).stream.current? = some (opening.withTypes [roundBracket]) := rfl
  have holds : (Rule.matcher (.type [roundBracket]) false).Matches world (typed [roundBracket]) :=
    matches_matcher_iff.mpr ⟨_, next, by decide⟩
  have retyped : Token.Retyped (opening.withTypes [roundBracket]) (opening.withTypes [roundBracket, otherBracket]) :=
    .withTypes (opening.withTypes [roundBracket]) [otherBracket]
  have isBracket : roundBracket.isTypeOf bracket = true :=
    (orders.isTypeOf_iff roundBracket (by simp [Brackets.types]) bracket).mpr (by decide)
  obtain ⟨rule', makes', takes⟩ := (subsumes _ makes).above [bracket] (.cons isBracket .nil)
  obtain ⟨-, rfl⟩ := ofTypes_eq_ok_iff.mp makes'
  obtain ⟨_, _, yields⟩ := exists_matcher_yields world (.type [bracket]) false (typed [otherBracket])
  refine ⟨types_made, rfl, by decide, _, _, makes, makes', holds, ?_, takes _ holds, yields.fails_iff.mpr ?_⟩
  · exact (subsumes _ makes).retyped _ _ _ _ (.single retyped) next rfl holds
  · intro other
    obtain ⟨token, first, accepts⟩ := matches_matcher_iff.mp other
    cases first
    exact absurd accepts (by decide)

end Rule

end TokenGrammar
