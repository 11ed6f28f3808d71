import Mathlib.Logic.Relation
import TokenGrammar.Grammar.UnboundNames

namespace TokenGrammar

namespace Rule

/-- A rule shows itself, the rules among its properties, and what these show. -/
def Shows (store : RuleStore) : Rule → Rule → Prop := Relation.ReflTransGen fun rule part => part ∈ rule.children store

variable {store : RuleStore} {rule part : Rule} {mention : Mention}

theorem sizeOf_attempted_le (rule : Rule) (negated : Bool) : sizeOf (rule.attempted negated) ≤ sizeOf rule + 1 := by
  cases negated with
  | false => exact Nat.le_succ _
  | true => cases rule <;> simp [attempted, negate] <;> omega

/-- A rule of the library is larger than what it shows. -/
theorem sizeOf_child_lt (own : rule.externalNumber? = none) (child : part ∈ rule.children store) :
    sizeOf part < sizeOf rule := by
  cases rule with
  | external number => cases own
  | sequence rules | anyOf rules | allOf rules =>
    have := List.sizeOf_lt_of_mem (by simpa using child : part ∈ rules)
    simp
    omega
  | optional rule negated =>
    have := sizeOf_attempted_le rule negated
    rw [List.mem_singleton.mp child]
    simp
    omega
  | boundary opening closing =>
    have : 0 < sizeOf opening := by cases opening <;> simp +arith
    simp only [children_boundary, List.mem_cons, List.not_mem_nil, or_false] at child
    rcases child with rfl | rfl | rfl <;> simp <;> omega
  | filledBoundary opening body closing =>
    simp only [children_filledBoundary, List.mem_cons, List.not_mem_nil, or_false] at child
    rcases child with rfl | rfl | rfl <;> simp <;> omega
  | repeated rule | lookaround _ rule | capture _ rule =>
    rw [List.mem_singleton.mp child]
    simp +arith
  | group rule | not rule =>
    rw [List.mem_singleton.mp child]
    simp
  | matcher test => cases test <;> simp [children, properties, testProperties, Property.children] at child
  | _ => simp [children, properties, Property.children] at child

theorem name_mem_ownMentions_iff {name : Text} : .name name ∈ rule.ownMentions ↔ rule.requiredName? = some name := by
  cases rule with
  | external number => simp [ownMentions, requiredName?]
  | _ => simp [ownMentions]

theorem external_mem_ownMentions_iff {number : Nat} : .external number ∈ rule.ownMentions ↔ rule = .external number := by
  cases rule with
  | external other => simp [ownMentions, eq_comm]
  | _ => simp [ownMentions]

theorem mem_mentions_of_own (own : mention ∈ rule.ownMentions) : mention ∈ rule.mentions := by
  cases outside : rule.externalNumber? with
  | some number =>
    cases rule <;> cases outside
    simpa [mentions, ownMentions] using own
  | none =>
    rw [mentions_eq {} rule outside, Mention.mem_join]
    exact .inl own

/-- A rule of the library mentions what it shows mentions. -/
theorem mem_mentions_of_child (own : rule.externalNumber? = none) (child : part ∈ rule.children store)
    (mentioned : mention ∈ part.mentions) : mention ∈ rule.mentions := by
  rw [mentions_eq store rule own, Mention.mem_join, Mention.mem_joinAll]
  exact .inr ⟨part.mentions, List.mem_map_of_mem child, mentioned⟩

/-- What a rule mentions it mentions itself, or a rule that it shows does. -/
theorem exists_shown_of_mem_mentions (store : RuleStore) (rule : Rule) (mentioned : mention ∈ rule.mentions) :
    ∃ inner, Shows store rule inner ∧ mention ∈ inner.ownMentions := by
  cases own : rule.externalNumber? with
  | some number =>
    cases rule <;> cases own
    exact ⟨_, .refl, by simpa [mentions, ownMentions] using mentioned⟩
  | none =>
    rw [mentions_eq store rule own, Mention.mem_join, Mention.mem_joinAll] at mentioned
    rcases mentioned with here | ⟨_, member, mentioned⟩
    · exact ⟨rule, .refl, here⟩
    · obtain ⟨part, child, rfl⟩ := List.mem_map.mp member
      have := sizeOf_child_lt own child
      obtain ⟨inner, shows, mentions⟩ := exists_shown_of_mem_mentions store part mentioned
      exact ⟨inner, .head child shows, mentions⟩
termination_by sizeOf rule

end Rule

/-- A mention leads to a name when it is the name, or when it is a rule of a caller that has not been visited yet and
shows a rule whose mentions lead to the name. -/
inductive Mention.LeadsTo (store : RuleStore) (visited : List Nat) : Mention → Text → Prop
  | name (name : Text) : LeadsTo store visited (.name name) name
  | external {number : Nat} {mention : Mention} {name : Text} (fresh : number ∉ visited)
      (shown : mention ∈ Grammar.mentionsOf ((Rule.external number).children store))
      (leads : LeadsTo store visited mention name) : LeadsTo store visited (.external number) name

namespace Mention.LeadsTo

variable {store : RuleStore} {visited : List Nat} {mention : Mention} {name : Text} {number : Nat}

/-- What is reached without one visited rule more is reached with it. -/
theorem of_cons (leads : mention.LeadsTo store (number :: visited) name) : mention.LeadsTo store visited name := by
  induction leads with
  | name name => exact .name name
  | external fresh shown _ ih => exact .external (fun member => fresh (List.mem_cons_of_mem _ member)) shown ih

/-- A name is reached without a rule, or from what that rule shows. -/
theorem cons_or_shown (number : Nat) (leads : mention.LeadsTo store visited name) :
    mention.LeadsTo store (number :: visited) name ∨
      ∃ shown ∈ Grammar.mentionsOf ((Rule.external number).children store),
        shown.LeadsTo store (number :: visited) name := by
  induction leads with
  | name name => exact .inl (.name name)
  | @external other mention name fresh shown _ ih =>
    -- A way that comes through the rule more than once is entered behind the last time.
    rcases ih with leads | later
    · by_cases same : other = number
      · subst same
        exact .inr ⟨mention, shown, leads⟩
      · exact .inl (.external (by simp [same, fresh]) shown leads)
    · exact .inr later

end Mention.LeadsTo

namespace Grammar

variable {store : RuleStore} {bindings : Bindings} {name : Text}

theorem mem_addName {names : List Text} {added : Text} : name ∈ addName names added ↔ name ∈ names ∨ name = added := by
  unfold addName
  split
  · rename_i present
    constructor
    · exact .inl
    · rintro (member | rfl)
      · exact member
      · simpa using present
  · simp

theorem nodup_addName {names : List Text} (unique : names.Nodup) (added : Text) : (addName names added).Nodup := by
  unfold addName
  split
  · exact unique
  · rename_i fresh
    simp only [List.contains_eq_mem, decide_eq_true_eq] at fresh
    rw [List.nodup_append]
    refine ⟨unique, by simp, ?_⟩
    intro first member second same
    rw [List.mem_singleton.mp same]
    rintro rfl
    exact fresh member

theorem mem_mentionsOf {rules : List Rule} {mention : Mention} :
    mention ∈ mentionsOf rules ↔ ∃ rule ∈ rules, mention ∈ rule.mentions := by
  simp only [mentionsOf, Mention.mem_joinAll, List.mem_map]
  grind

theorem children_external_of_le {number : Nat} (outside : store.externals.size ≤ number) :
    (Rule.external number).children store = [] := by
  simp [Rule.children, Rule.properties, RuleStore.external?, outside]

theorem leadsTo_name_iff {visited : List Nat} {found : Text} :
    (Mention.name found).LeadsTo store visited name ↔ name = found := by
  constructor
  · intro leads
    cases leads
    rfl
  · rintro rfl
    exact .name name

/-- A rule of a caller leads on through what it shows, and need not be come back to. -/
theorem leadsTo_external_iff {visited : List Nat} {number : Nat} (pending : List Mention) (fresh : number ∉ visited) :
    (∃ mention ∈ Mention.external number :: pending, mention.LeadsTo store visited name) ↔
      ∃ mention ∈ mentionsOf ((Rule.external number).children store) ++ pending,
        mention.LeadsTo store (number :: visited) name := by
  constructor
  · rintro ⟨mention, member, leads⟩
    rcases leads.cons_or_shown number with avoids | ⟨shown, inside, avoids⟩
    · rcases List.mem_cons.mp member with rfl | member
      · cases avoids with
        | external excluded => exact absurd (List.mem_cons_self ..) excluded
      · exact ⟨mention, List.mem_append_right _ member, avoids⟩
    · exact ⟨shown, List.mem_append_left _ inside, avoids⟩
  · rintro ⟨mention, member, leads⟩
    rcases List.mem_append.mp member with shown | member
    · exact ⟨_, List.mem_cons_self .., .external fresh shown leads.of_cons⟩
    · exact ⟨mention, List.mem_cons_of_mem _ member, leads.of_cons⟩

/-- A rule of a caller that was visited, or does not exist, leads nowhere. -/
theorem not_leadsTo_stale {visited : List Nat} {number : Nat}
    (stale : ¬ (number < store.externals.size ∧ visited.contains number = false)) :
    ¬ (Mention.external number).LeadsTo store visited name := by
  intro leads
  cases leads with
  | external fresh shown =>
    rcases Nat.lt_or_ge number store.externals.size with inside | outside
    · exact stale ⟨inside, by simpa using fresh⟩
    · rw [children_external_of_le outside] at shown
      cases shown

/-- The walk finds a name if it was found before, or if nothing binds it and a pending mention leads to it without the
rules that were visited. -/
theorem mem_missingNames_iff (visited : List Nat) (missing : List Text) (pending : List Mention) :
    name ∈ missingNames store bindings visited missing pending ↔
      name ∈ missing ∨ (bindings.hasRule name = false ∧ ∃ mention ∈ pending, mention.LeadsTo store visited name) := by
  fun_induction missingNames store bindings visited missing pending with
  | case1 => simp
  | case2 visited missing found pending ih =>
    have added : (name ∈ if bindings.hasRule found = true then missing else addName missing found) ↔
        name ∈ missing ∨ (bindings.hasRule name = false ∧ name = found) := by
      split
      · rename_i bound
        refine ⟨.inl, fun given => given.resolve_right ?_⟩
        rintro ⟨unbound, rfl⟩
        rw [bound] at unbound
        cases unbound
      · rename_i unbound
        rw [mem_addName]
        refine or_congr_right ⟨fun same => ⟨?_, same⟩, And.right⟩
        rw [same]
        exact Bool.eq_false_iff.mpr unbound
    have walked := ih
    simp only [dite_eq_ite] at walked
    rw [walked, added, or_assoc, ← and_or_left]
    simp only [List.mem_cons, exists_eq_or_imp, leadsTo_name_iff]
  | case3 visited missing number pending fresh parts ih =>
    rw [ih, leadsTo_external_iff pending (by simpa using fresh.2)]
  | case4 visited missing number pending stale ih =>
    rw [ih]
    simp only [List.mem_cons, exists_eq_or_imp, not_leadsTo_stale stale, false_or]

theorem nodup_missingNames (visited : List Nat) {missing : List Text} (pending : List Mention)
    (unique : missing.Nodup) : (missingNames store bindings visited missing pending).Nodup := by
  fun_induction missingNames store bindings visited missing pending with
  | case1 => exact unique
  | case2 visited missing found pending ih =>
    apply ih
    split
    · exact unique
    · exact nodup_addName unique found
  | case3 visited missing number pending fresh parts ih => exact ih unique
  | case4 visited missing number pending stale ih => exact ih unique

/-- The mentions of a rule lead to the names that are required by what the rule shows. -/
theorem exists_leadsTo_iff {rule : Rule} :
    (∃ mention ∈ rule.mentions, mention.LeadsTo store [] name) ↔
      ∃ inner, rule.Shows store inner ∧ inner.requiredName? = some name := by
  constructor
  · rintro ⟨mention, mentioned, leads⟩
    induction leads generalizing rule with
    | name name =>
      obtain ⟨inner, shows, own⟩ := Rule.exists_shown_of_mem_mentions store rule mentioned
      exact ⟨inner, shows, Rule.name_mem_ownMentions_iff.mp own⟩
    | @external number mention name fresh shown _ ih =>
      obtain ⟨outer, shows, own⟩ := Rule.exists_shown_of_mem_mentions store rule mentioned
      obtain ⟨part, child, mentioned⟩ := mem_mentionsOf.mp shown
      obtain ⟨inner, showsInner, requires⟩ := ih mentioned
      rw [Rule.external_mem_ownMentions_iff.mp own] at shows
      exact ⟨inner, shows.trans (.head child showsInner), requires⟩
  · rintro ⟨inner, shows, requires⟩
    induction shows using Relation.ReflTransGen.head_induction_on with
    | refl => exact ⟨_, Rule.mem_mentions_of_own (Rule.name_mem_ownMentions_iff.mpr requires), .name name⟩
    | @head rule part child _ ih =>
      obtain ⟨mention, mentioned, leads⟩ := ih
      cases outside : rule.externalNumber? with
      | none => exact ⟨mention, Rule.mem_mentions_of_child outside child mentioned, leads⟩
      | some number =>
        cases rule <;> cases outside
        refine ⟨.external number, ?_, .external (by simp) (mem_mentionsOf.mpr ⟨part, child, mentioned⟩) leads⟩
        simp [Rule.mentions]

/-- The check finds exactly the names that rules shown by the roots require and that nothing binds. -/
theorem mem_unboundNames_iff {roots : List Rule} :
    name ∈ unboundNames store bindings roots ↔
      (∃ root ∈ roots, ∃ inner, root.Shows store inner ∧ inner.requiredName? = some name) ∧
        bindings.hasRule name = false := by
  rw [unboundNames, mem_missingNames_iff]
  simp only [List.not_mem_nil, false_or, mem_mentionsOf, ← exists_leadsTo_iff]
  constructor
  · rintro ⟨unbound, mention, ⟨root, member, mentioned⟩, leads⟩
    exact ⟨⟨root, member, mention, mentioned, leads⟩, unbound⟩
  · rintro ⟨⟨root, member, mention, mentioned, leads⟩, unbound⟩
    exact ⟨unbound, mention, ⟨root, member, mentioned⟩, leads⟩

theorem nodup_unboundNames (roots : List Rule) : (unboundNames store bindings roots).Nodup :=
  nodup_missingNames [] _ List.nodup_nil

end Grammar

end TokenGrammar
