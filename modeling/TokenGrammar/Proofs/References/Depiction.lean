import Mathlib.Data.Set.Finite.Lattice
import Mathlib.Data.Set.Finite.List
import Mathlib.Order.Interval.Finset.Nat
import TokenGrammar.Proofs.References.Graph

namespace TokenGrammar

section Places

variable {α β : Type} {change : α → β} {back : β → α}

theorem Held.map_map_eq_self (held : Held α) (same : ∀ object ∈ held.rules, back (change object) = object) :
    (held.map change).map back = held := by
  cases held with
  | rule object => exact congrArg Held.rule (same object (List.mem_singleton_self _))
  | list items =>
    simp only [map, List.map_map]
    refine congrArg Held.list ((List.map_congr_left fun item among => ?_).trans (List.map_id items))
    cases item with
    | none => rfl
    | some object => exact congrArg some (same object (List.reduceOption_mem_iff.mpr among))
  | _ => rfl

theorem RuleObject.map_map_eq_self (object : RuleObject α) (same : ∀ part ∈ object.children, back (change part) = part) :
    (object.map change).map back = object := by
  obtain ⟨kind, properties⟩ := object
  simp only [map, List.map_map, RuleObject.mk.injEq, true_and]
  refine (List.map_congr_left fun property among => ?_).trans (List.map_id properties)
  refine Prod.ext rfl (property.2.map_map_eq_self fun part held => same part ?_)
  exact List.mem_flatMap.mpr ⟨property, among, held⟩

end Places

namespace Rule

variable (store : RuleStore)

/-- A rule shows itself, and what its parts show, up to rules of a caller. -/
def ShowsInside : Rule → Rule → Prop :=
  Relation.ReflTransGen fun outer part => outer.externalNumber? = none ∧ part ∈ outer.children store

theorem finite_showsInside (rule : Rule) : {shown | rule.ShowsInside store shown}.Finite := by
  have parts : (⋃ part ∈ {part | rule.externalNumber? = none ∧ part ∈ rule.children store},
      {shown | ShowsInside store part shown}).Finite := by
    refine Set.Finite.biUnion ((rule.children store).finite_toSet.subset fun part => And.right) fun part inside => ?_
    have := sizeOf_child_lt inside.1 inside.2
    exact finite_showsInside part
  refine (parts.insert rule).subset fun shown shows => ?_
  rcases Relation.ReflTransGen.cases_head shows with rfl | ⟨part, inside, shows⟩
  · exact .inl rfl
  · exact .inr (Set.mem_biUnion inside shows)
termination_by sizeOf rule

/-- A rule shows finitely many rules: its parts, and those of rules that callers have in the store. -/
theorem finite_shows (rule : Rule) : {shown | rule.Shows store shown}.Finite := by
  have outside : (⋃ number ∈ Set.Iio store.externals.size, ⋃ part ∈ {part | part ∈ (external number).children store},
      {shown | ShowsInside store part shown}).Finite :=
    (Set.finite_Iio _).biUnion fun number _ =>
      ((external number).children store).finite_toSet.biUnion fun part _ => finite_showsInside store part
  refine ((finite_showsInside store rule).union outside).subset fun shown shows => ?_
  simp only [Set.mem_union, Set.mem_iUnion, Set.mem_ofPred_eq, Set.mem_Iio] at *
  induction shows with
  | refl => exact .inl .refl
  | @tail outer part _ child ih =>
    cases own : outer.externalNumber? with
    | none =>
      rcases ih with shows | ⟨number, inside, root, among, shows⟩
      · exact .inl (shows.tail ⟨own, child⟩)
      · exact .inr ⟨number, inside, root, among, shows.tail ⟨own, child⟩⟩
    | some number =>
      cases outer <;> cases own
      rcases Nat.lt_or_ge number store.externals.size with inside | none
      · exact .inr ⟨number, inside, part, child, .refl⟩
      · rw [Grammar.children_external_of_le none] at child
        cases child

end Rule

/-- All rules are what roots of a finite graph depict. -/
theorem RuleGraph.exists_depicts (store : RuleStore) (rules : List Rule) :
    ∃ (size : Nat) (graph : RuleGraph size) (rule : Fin size → Rule) (roots : List (Fin size)),
      graph.Depicts store rule ∧ roots.map rule = rules := by
  classical
  let Shown := {inner // ∃ root ∈ rules, root.Shows store inner}
  have finite : {inner | ∃ root ∈ rules, root.Shows store inner}.Finite := by
    refine (rules.finite_toSet.biUnion fun root _ => root.finite_shows store).subset ?_
    rintro inner ⟨root, isRoot, shows⟩
    exact Set.mem_biUnion isRoot shows
  have : Finite Shown := finite.to_subtype
  obtain ⟨size, ⟨number⟩⟩ := Finite.exists_equiv_fin Shown
  let rule (object : Fin size) : Rule := (number.symm object).val
  let place (object : Fin size) (part : Rule) : Fin size :=
    if shown : ∃ root ∈ rules, root.Shows store part then number ⟨part, shown⟩ else object
  let graph : RuleGraph size := ⟨fun object => ((rule object).object store).map (place object)⟩
  let root (given : {root // root ∈ rules}) : Fin size := number ⟨given.val, given.val, given.property, .refl⟩
  refine ⟨size, graph, rule, rules.attach.map root, fun object => ?_, ?_⟩
  · refine RuleObject.map_map_eq_self _ fun part child => ?_
    rw [Rule.children_object] at child
    obtain ⟨root, isRoot, shows⟩ := (number.symm object).property
    have shown : ∃ root ∈ rules, root.Shows store part := ⟨root, isRoot, shows.tail child⟩
    simp only [rule, place, dif_pos shown, Equiv.symm_apply_apply]
  · simp only [List.map_map, root, rule, Function.comp_def, Equiv.symm_apply_apply]
    exact List.attach_map_subtype_val rules

end TokenGrammar
