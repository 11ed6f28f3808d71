import TokenGrammar.Grammar
import TokenGrammar.Proofs.Reach
import TokenGrammar.Proofs.Unbound

namespace TokenGrammar

namespace Rule

/-- The rule that a rule keeps in a cell, where no property shows it. -/
def kept? (store : RuleStore) : Rule → Option Rule
  | .selfReferring cell | .lazy cell => store.content? cell
  | _ => none

/-- A rule holds itself, the rules among its properties, the rule that it keeps in a cell, and what these hold. -/
def Holds (store : RuleStore) : Rule → Rule → Prop :=
  Relation.ReflTransGen fun rule part => part ∈ rule.children store ∨ rule.kept? store = some part

variable {store : RuleStore} {rule inner : Rule}

theorem Shows.holds (shows : rule.Shows store inner) : rule.Holds store inner := by
  induction shows with
  | refl => exact .refl
  | tail _ child ih => exact ih.tail (.inl child)

/-- Where no rule that is shown keeps another one, all that is held is shown. -/
theorem Holds.shows (unkept : ∀ outer, rule.Shows store outer → outer.kept? store = none) (holds : rule.Holds store inner) :
    rule.Shows store inner := by
  induction holds with
  | refl => exact .refl
  | @tail outer part _ next ih =>
    rcases next with child | keeps
    · exact ih.tail child
    · rw [unkept outer ih] at keeps
      cases keeps

end Rule

namespace Notice

/-- The name that a notice says to be never defined. -/
def undefinedName? : Notice → Option Text
  | .ruleNeverDefined name => some name
  | _ => none

end Notice

namespace Grammar

/-- The rules of a grammar, active and defined. -/
def roots (grammar : Grammar) : List Rule :=
  grammar.rules.map RuleBinding.rule ++ grammar.definitions.map fun entry => entry.2.rule

/-- Whether a rule within one of the rules of a grammar requires a name that the grammar does not define. -/
def Lacks (grammar : Grammar) (within : Rule → Rule → Prop) (name : Text) : Prop :=
  (∃ root ∈ grammar.roots, ∃ inner, within root inner ∧ inner.requiredName? = some name) ∧
    name ∉ grammar.definitions.map Prod.fst

end Grammar

namespace GrammarBuilder

/-- The builders that come from the new one by definitions and active rules. -/
inductive Reached : GrammarBuilder → Prop
  | new : Reached {}
  | define {builder after : GrammarBuilder} {name : Text} {rule : Rule} {action : Action} (reached : Reached builder)
      (defined : builder.define name rule action = .ok after) : Reached after
  | defineDynamic {builder after : GrammarBuilder} {name : Text} {resolver : DynamicResolver}
      (reached : Reached builder) (defined : builder.defineDynamic name resolver = .ok after) : Reached after
  | addRule {builder after : GrammarBuilder} {store : RuleStore} {rule : Rule} {action : Action} {wrap : Option Bool}
      {notices : List Notice} (reached : Reached builder)
      (added : builder.addRule store rule action wrap = .ok (after, notices)) : Reached after

variable {builder after : GrammarBuilder} {store : RuleStore} {name : Text}

theorem eq_of_define {rule : Rule} {action : Action} (defined : builder.define name rule action = .ok after) :
    builder.isBuilt = false ∧
      after = { builder with
        bindings := { builder.bindings with rules := builder.bindings.rules ++ [(name, rule)] }
        definitions := builder.definitions ++ [(name, ⟨rule, action⟩)] } := by
  obtain ⟨unbuilt, defined⟩ := check_bind_eq_ok_iff.mp defined
  unfold Bindings.defineRule at defined
  cases definable : builder.bindings.checkDefinable name with
  | error fault =>
    rw [definable] at defined
    cases defined
  | ok =>
    rw [definable] at defined
    cases defined
    exact ⟨by simpa using unbuilt, rfl⟩

theorem eq_of_defineDynamic {resolver : DynamicResolver} (defined : builder.defineDynamic name resolver = .ok after) :
    builder.isBuilt = false ∧
      after = { builder with
        bindings := { builder.bindings with dynamics := builder.bindings.dynamics ++ [(name, resolver)] } } := by
  obtain ⟨unbuilt, defined⟩ := check_bind_eq_ok_iff.mp defined
  unfold Bindings.defineDynamic at defined
  cases definable : builder.bindings.checkDefinable name with
  | error fault =>
    rw [definable] at defined
    cases defined
  | ok =>
    rw [definable] at defined
    cases defined
    exact ⟨by simpa using unbuilt, rfl⟩

theorem eq_of_addRule {rule : Rule} {action : Action} {wrap : Option Bool} {notices : List Notice}
    (added : builder.addRule store rule action wrap = .ok (after, notices)) :
    builder.isBuilt = false ∧ ∃ active, after = { builder with active := builder.active ++ [⟨active, action⟩] } := by
  obtain ⟨unbuilt, added⟩ := check_bind_eq_ok_iff.mp added
  cases added
  exact ⟨by simpa using unbuilt, _, rfl⟩

/-- A builder that was reached is open, and binds the names that it defines to rules and no others. -/
theorem Reached.isBuilt_ruleNames (reached : builder.Reached) :
    builder.isBuilt = false ∧ builder.bindings.ruleNames = builder.definitions.map Prod.fst := by
  unfold Bindings.ruleNames
  induction reached with
  | new => exact ⟨rfl, rfl⟩
  | define _ defined ih =>
    obtain ⟨unbuilt, rfl⟩ := eq_of_define defined
    exact ⟨unbuilt, by simp [ih.2]⟩
  | defineDynamic _ defined ih =>
    obtain ⟨unbuilt, rfl⟩ := eq_of_defineDynamic defined
    exact ⟨unbuilt, ih.2⟩
  | addRule _ added ih =>
    obtain ⟨unbuilt, _, rfl⟩ := eq_of_addRule added
    exact ⟨unbuilt, ih.2⟩

theorem hasRule_eq_false_iff {bindings : Bindings} : bindings.hasRule name = false ↔ name ∉ bindings.ruleNames := by
  rw [Bindings.hasRule, Option.isSome_eq_false_iff, Option.isNone_iff_eq_none, Bindings.rule?, List.lookup_eq_none_iff]
  simp only [Bindings.ruleNames, List.mem_map, not_exists, not_and, bne_iff_ne, ne_eq]
  exact forall₂_congr fun entry _ => not_congr eq_comm

/-- Building a builder that was reached warns of the names of the check, in its order, and of no others. -/
theorem exists_build (reached : builder.Reached) (store : RuleStore) :
    ∃ closed grammar notices,
      builder.build store = .ok (closed, grammar, notices) ∧ closed.isBuilt = true ∧
        grammar.rules = builder.active ∧ grammar.definitions = builder.definitions ∧
        notices.filterMap Notice.undefinedName? = Grammar.unboundNames store builder.bindings.close grammar.roots := by
  have built : builder.checkOpen = .ok () := by simp [checkOpen, check, reached.isBuilt_ruleNames.1]
  refine ⟨_, _, _, by rw [build, built]; rfl, rfl, rfl, rfl, ?_⟩
  have silent : (if builder.active.isEmpty then [Notice.noActiveRules] else []).filterMap Notice.undefinedName? = [] := by
    split <;> rfl
  rw [List.filterMap_append, silent, List.append_nil, List.filterMap_map]
  exact List.filterMap_some

/-- A grammar warns once for each name that a rule shown by one of its rules requires, and that is not among its
definitions. Where no such rule keeps another one, these are all the names that its rules require without a
definition. -/
theorem build_warns (reached : builder.Reached) (store : RuleStore) :
    ∃ closed grammar notices,
      builder.build store = .ok (closed, grammar, notices) ∧
        grammar.rules = builder.active ∧ grammar.definitions = builder.definitions ∧
        (notices.filterMap Notice.undefinedName?).Nodup ∧
        (∀ name, name ∈ notices.filterMap Notice.undefinedName? ↔ grammar.Lacks (Rule.Shows store) name) ∧
        (∀ name, name ∈ notices.filterMap Notice.undefinedName? → grammar.Lacks (Rule.Holds store) name) ∧
        ((∀ root ∈ grammar.roots, ∀ outer, root.Shows store outer → outer.kept? store = none) →
          ∀ name, grammar.Lacks (Rule.Holds store) name → name ∈ notices.filterMap Notice.undefinedName?) := by
  obtain ⟨closed, grammar, notices, built, -, rules_eq, definitions_eq, warned_eq⟩ := exists_build reached store
  have warned (name : Text) :
      name ∈ notices.filterMap Notice.undefinedName? ↔ grammar.Lacks (Rule.Shows store) name := by
    rw [warned_eq, Grammar.mem_unboundNames_iff, hasRule_eq_false_iff, Grammar.Lacks, definitions_eq,
      ← reached.isBuilt_ruleNames.2]
    rfl
  refine ⟨closed, grammar, notices, built, rules_eq, definitions_eq, ?_, warned, ?_, ?_⟩
  · rw [warned_eq]
    exact Grammar.nodup_unboundNames grammar.roots
  · intro name member
    obtain ⟨⟨root, isRoot, inner, shows, requires⟩, undefined⟩ := (warned name).mp member
    exact ⟨⟨root, isRoot, inner, shows.holds, requires⟩, undefined⟩
  · rintro unkept name ⟨⟨root, isRoot, inner, holds, requires⟩, undefined⟩
    exact (warned name).mpr ⟨⟨root, isRoot, inner, holds.shows (unkept root isRoot), requires⟩, undefined⟩

end GrammarBuilder

/-- A grammar whose active rule refers to pairs of brackets, which are defined, and to quotes, which are not. -/
def Brackets.builder : GrammarBuilder where
  bindings := { rules := [("pair", .sequence [taking opening, .optional (.named "pair") false, taking closing])] }
  active := [⟨.anyOf [.named "pair", .named "quote"], .identity⟩]
  definitions :=
    [("pair", ⟨.sequence [taking opening, .optional (.named "pair") false, taking closing], .identity⟩)]

theorem Brackets.builder_reached : builder.Reached := by
  have added : ({} : GrammarBuilder).addRule {} (.anyOf [.named "pair", .named "quote"]) .identity none =
      .ok ({ active := builder.active }, []) := rfl
  have defined : ({ active := builder.active } : GrammarBuilder).define "pair"
      (.sequence [taking opening, .optional (.named "pair") false, taking closing]) .identity = .ok builder := rfl
  exact .define (.addRule .new added) defined

theorem GrammarBuilder.build_warns_of_quote_only :
    Brackets.builder.Reached ∧
      ∃ closed grammar notices,
        Brackets.builder.build {} = .ok (closed, grammar, notices) ∧
          ("quote" : Text) ∈ notices.filterMap Notice.undefinedName? ∧ ("pair" : Text) ∉ notices.filterMap Notice.undefinedName? := by
  refine ⟨Brackets.builder_reached, ?_⟩
  obtain ⟨closed, grammar, notices, built, rules_eq, definitions_eq, -, warned, -⟩ :=
    build_warns Brackets.builder_reached {}
  refine ⟨closed, grammar, notices, built, (warned "quote").mpr ⟨⟨.anyOf [.named "pair", .named "quote"], ?_, ?_⟩, ?_⟩, ?_⟩
  · simp [Grammar.roots, rules_eq, Brackets.builder]
  · exact ⟨.named "quote", .single (by simp), rfl⟩
  · simp [definitions_eq, Brackets.builder]
  · rw [warned "pair"]
    rintro ⟨-, undefined⟩
    exact undefined (by simp [definitions_eq, Brackets.builder])

/-- The inside of a rule that refers to itself requires an item, which is never defined, and no warning says so. -/
theorem GrammarBuilder.not_build_warns :
    ∃ builder : GrammarBuilder, builder.Reached ∧
      ∃ closed grammar notices,
        builder.build { cells := #[some (.named "item")] } = .ok (closed, grammar, notices) ∧
          grammar.Lacks (Rule.Holds { cells := #[some (.named "item")] }) "item" ∧
          ("item" : Text) ∉ notices.filterMap Notice.undefinedName? := by
  have added : ({} : GrammarBuilder).addRule {} (.selfReferring 0) .identity none =
      .ok ({ active := [⟨.selfReferring 0, .identity⟩] }, []) := rfl
  have reached : GrammarBuilder.Reached { active := [⟨.selfReferring 0, .identity⟩] } := .addRule .new added
  obtain ⟨closed, grammar, notices, built, -, rules_eq, definitions_eq, warned_eq⟩ :=
    exists_build reached { cells := #[some (.named "item")] }
  have roots_eq : grammar.roots = [.selfReferring 0] := by simp [Grammar.roots, rules_eq, definitions_eq]
  refine ⟨_, reached, closed, grammar, notices, built, ⟨⟨.selfReferring 0, ?_, .named "item", .single (.inr rfl), rfl⟩, ?_⟩, ?_⟩
  · simp [roots_eq]
  · simp [definitions_eq]
  · rw [warned_eq, roots_eq]
    simp [Grammar.unboundNames, Grammar.mentionsOf, Rule.mentions, Mention.joinAll, Mention.join, Grammar.missingNames]

end TokenGrammar
