import Mathlib.Order.Bounds.Defs
import TokenGrammar.Proofs.Algebra.Going
import TokenGrammar.Proofs.ExcludedMiddle

namespace TokenGrammar.Rule

open Run
open Attempt (Gives)

variable {world : World} {rule : Rule} {rules rules' seen : List Rule} {captures : Captures}
  {place far next : TokenStream} {result result' : Option TokenStream} {situation after : Situation}
  {answer : Option Match} {known : Match}

/-- Together, rules go to none where one of them goes to none, and otherwise to the farthest of the places that they go
to by themselves. -/
inductive GoTogether (world : World) (rules : List Rule) (captures : Captures) (place : TokenStream) :
    Option TokenStream → Prop
  | fails {rule : Rule} (inside : rule ∈ rules) (fails : rule.GoesTo world captures place none) :
      GoTogether world rules captures place none
  | farthest {rule : Rule} {next : TokenStream} (inside : rule ∈ rules)
      (goes : rule.GoesTo world captures place (some next))
      (others : ∀ other ∈ rules, ∃ reached, other.GoesTo world captures place (some reached) ∧
        reached.index ≤ next.index) : GoTogether world rules captures place (some next)

/-- It does not matter in which order the rules are listed. -/
theorem GoTogether.perm (together : GoTogether world rules captures place result) (permuted : rules.Perm rules') :
    GoTogether world rules' captures place result := by
  cases together with
  | fails inside fails => exact .fails (permuted.mem_iff.mp inside) fails
  | farthest inside goes others =>
    exact .farthest (permuted.mem_iff.mp inside) goes fun other inside => others other (permuted.mem_iff.mpr inside)

/-- Steady rules go to one place together. -/
theorem GoTogether.unique (steady : ∀ member ∈ rules, member.IsSteady world)
    (together : GoTogether world rules captures place result)
    (together' : GoTogether world rules captures place result') : result = result' := by
  cases together with
  | fails inside fails =>
    cases together' with
    | fails => rfl
    | farthest _ _ others =>
      obtain ⟨reached, goes, -⟩ := others _ inside
      cases fails.unique goes
  | @farthest first next inside goes others =>
    cases together' with
    | fails inside' fails =>
      obtain ⟨reached, goes, -⟩ := others _ inside'
      cases fails.unique goes
    | @farthest second next' inside' goes' others' =>
      obtain ⟨reached, reaches, le⟩ := others second inside'
      obtain ⟨reached', reaches', le'⟩ := others' first inside
      cases reaches.unique goes'
      cases reaches'.unique goes
      obtain ⟨tokens, reads⟩ := (steady first inside).reads goes
      obtain ⟨tokens', reads'⟩ := (steady second inside').reads goes'
      exact congrArg some (reads.eq_of_index_eq reads' (Nat.le_antisymm le' le))

theorem GoTogether.singleton (goes : rule.GoesTo world captures place (some next)) :
    GoTogether world [rule] captures place (some next) := by
  refine .farthest (List.mem_singleton_self rule) goes fun other inside => ?_
  rw [List.mem_singleton] at inside
  exact ⟨next, inside ▸ goes, Nat.le_refl _⟩

/-- With one more rule it is the farther place of the one so far and of that of the rule. -/
theorem GoTogether.snoc (together : GoTogether world seen captures place (some far))
    (goes : rule.GoesTo world captures place (some next)) :
    GoTogether world (seen ++ [rule]) captures place (some (far.farther next)) := by
  cases together with
  | farthest inside reaches others =>
    by_cases less : far.index < next.index
    · rw [TokenStream.farther, if_pos less]
      refine .farthest (by simp) goes fun other inside => ?_
      rcases List.mem_append.mp inside with inside | inside
      · obtain ⟨reached, goes, le⟩ := others other inside
        exact ⟨reached, goes, Nat.le_of_lt (Nat.lt_of_le_of_lt le less)⟩
      · obtain rfl := List.mem_singleton.mp inside
        exact ⟨next, goes, Nat.le_refl _⟩
    · rw [TokenStream.farther, if_neg less]
      refine .farthest (List.mem_append_left _ inside) reaches fun other inside => ?_
      rcases List.mem_append.mp inside with inside | inside
      · exact others other inside
      · obtain rfl := List.mem_singleton.mp inside
        exact ⟨next, goes, Nat.le_of_not_lt less⟩

section Steady

variable (steady : ∀ member ∈ rules, member.IsSteady world)
include steady

/-- With the farthest match of the rules that were seen, a conjunction goes on to where all the rules go together. -/
theorem goTogether_of_gives {notices : List Notice} (together : GoTogether world seen captures place (some far))
    (spans : known.Spans place far)
    (given : Gives (fun fuel => farthestOf (run world fuel) (some known) rules) ⟨place, captures, notices⟩ answer
      after) :
    ∃ result, Ends place answer result ∧
      GoTogether world (seen ++ rules) captures place result := by
  induction rules generalizing seen known far notices with
  | nil =>
    obtain ⟨rfl, rfl⟩ := gives_farthestOf_nil_iff.mp given
    rw [List.append_nil]
    exact ⟨some far, .some spans, together⟩
  | cons rule rules ih =>
    have steadyRule := steady rule (List.mem_cons_self ..)
    rcases gives_farthestOf_cons_iff.mp given with
      ⟨middle, fails, rfl, rfl⟩ | ⟨found, ⟨stream, kept, notices'⟩, takes, goesOn⟩
    · exact ⟨none, .none, .fails (by simp) fails.goesTo⟩
    · obtain rfl : kept = captures := steadyRule.captures_eq takes
      have spans' : found.Spans place stream := steadyRule.sound.settles takes
      have further := ih (fun member inside => steady member (List.mem_cons_of_mem _ inside))
        (together.snoc takes.goesTo) (spans_farther spans spans') goesOn
      rwa [List.append_assoc, List.singleton_append] at further

/-- A conjunction comes to an answer where its rules do. -/
theorem exists_gives_farthestOf (each : ∀ member ∈ rules, ∃ result, member.GoesTo world captures place result)
    (farthest : Option Match) (notices : List Notice) :
    ∃ answer after, Gives (fun fuel => farthestOf (run world fuel) farthest rules) ⟨place, captures, notices⟩ answer
      after := by
  induction rules generalizing farthest notices with
  | nil => exact ⟨farthest, _, gives_farthestOf_nil_iff.mpr ⟨rfl, rfl⟩⟩
  | cons rule rules ih =>
    have steadyRule := steady rule (List.mem_cons_self ..)
    obtain ⟨result, goes⟩ := each rule (List.mem_cons_self ..)
    obtain ⟨found, ⟨stream, kept, notices'⟩, yields, -⟩ := goes.exists_yields notices
    obtain rfl : kept = captures := steadyRule.captures_eq yields
    cases found with
    | none => exact ⟨none, _, gives_farthestOf_cons_iff.mpr (.inl ⟨_, yields, rfl, rfl⟩)⟩
    | some found =>
      obtain ⟨answer, after, given⟩ := ih (fun member inside => steady member (List.mem_cons_of_mem _ inside))
        (fun member inside => each member (List.mem_cons_of_mem _ inside))
        (some (farthest.elim found (farther · found))) notices'
      exact ⟨answer, after, gives_farthestOf_cons_iff.mpr (.inr ⟨found, _, yields, given⟩)⟩

theorem IsSteady.allOf : (Rule.allOf rules).IsSteady world where
  sound := (allOf_traced (isSound_of_isSteady steady)).isSound
  capturesNothing := capturesNothing_of_children rfl trivial fun part child =>
    (steady part (by simpa using child)).capturesNothing

/-- A conjunction goes where its rules go together. -/
theorem goTogether_of_goesTo (filled : rules ≠ []) (goes : (allOf rules).GoesTo world captures place result) :
    GoTogether world rules captures place result := by
  cases rules with
  | nil => exact absurd rfl filled
  | cons rule rules =>
    have steadyRule := steady rule (List.mem_cons_self ..)
    obtain ⟨notices, ends⟩ := goes
    obtain ⟨answer, middle, given, ends⟩ := (allOf_traced (isSound_of_isSteady steady)).ends_iff.mp ends
    rcases gives_farthestOf_none_iff.mp given with
      ⟨later, fails, rfl, rfl⟩ | ⟨found, ⟨stream, kept, notices'⟩, takes, goesOn⟩
    · cases ends
      exact .fails (List.mem_cons_self ..) fails.goesTo
    · obtain rfl : kept = captures := steadyRule.captures_eq takes
      have spans : found.Spans place stream := steadyRule.sound.settles takes
      obtain ⟨farthest, reaches, together⟩ := goTogether_of_gives
        (fun member inside => steady member (List.mem_cons_of_mem _ inside)) (.singleton takes.goesTo) spans goesOn
      rwa [ends.unique reaches]

/-- A conjunction goes somewhere where each of its rules does. -/
theorem exists_goesTo_allOf (each : ∀ member ∈ rules, ∃ result, member.GoesTo world captures place result) :
    ∃ result, (allOf rules).GoesTo world captures place result := by
  obtain ⟨answer, middle, given⟩ := exists_gives_farthestOf steady each none []
  obtain ⟨after, yields⟩ := (allOf_traced (isSound_of_isSteady steady)).exists_yields given
  exact ⟨_, yields.goesTo⟩

/-- A conjunction goes somewhere exactly where all its rules match. -/
theorem goesTo_allOf_some_iff (filled : rules ≠ []) :
    (∃ next, (allOf rules).GoesTo world captures place (some next)) ↔
      ∀ member ∈ rules, ∃ next, member.GoesTo world captures place (some next) := by
  constructor
  · intro goes member inside
    obtain ⟨next, goes⟩ := goes
    cases goTogether_of_goesTo steady filled goes with
    | farthest _ _ others =>
      obtain ⟨reached, reaches, -⟩ := others member inside
      exact ⟨reached, reaches⟩
  · intro each
    obtain ⟨result, goes⟩ := exists_goesTo_allOf steady fun member inside =>
      (each member inside).elim fun next goes => ⟨some next, goes⟩
    cases goTogether_of_goesTo steady filled goes with
    | fails inside fails =>
      obtain ⟨next, goes⟩ := each _ inside
      cases fails.unique goes
    | farthest => exact ⟨_, goes⟩

end Steady

theorem matches_iff_goesTo :
    rule.Matches world situation ↔
      ∃ next, rule.GoesTo world situation.memory.captures situation.stream (some next) := by
  constructor
  · intro holds
    obtain ⟨found, after, yields⟩ := holds
    exact ⟨after.stream, yields.goesTo⟩
  · intro holds
    obtain ⟨next, goes⟩ := holds
    obtain ⟨found, after, yields, some_eq⟩ := goes.exists_yields situation.memory.notices
    obtain ⟨found, rfl, -⟩ := Option.map_eq_some_iff.mp some_eq.symm
    exact ⟨found, after, yields⟩

/-- The numbers where matches of some rules from a situation end. -/
def finishes (world : World) (rules : List Rule) (situation : Situation) : Set Nat :=
  { finish | ∃ rule ∈ rules, ∃ found after, rule.Yields world situation (some found) after ∧
    found.finish = .ofNat finish }

/-- A match of a conjunction ends where the farthest match of its rules ends. -/
theorem isGreatest_finish {found : Match} (steady : ∀ member ∈ rules, member.IsSteady world) (filled : rules ≠ [])
    (yields : (allOf rules).Yields world situation (some found) after) :
    ∃ finish, found.finish = .ofNat finish ∧ IsGreatest (finishes world rules situation) finish := by
  have spans : found.Spans situation.stream after.stream := (IsSteady.allOf steady).sound.settles yields
  refine ⟨after.stream.index, spans.finish_eq, ?_⟩
  cases goTogether_of_goesTo steady filled yields.goesTo with
  | @farthest rule _ inside goes others =>
    constructor
    · obtain ⟨found', ⟨stream, memory⟩, yields', some_eq⟩ := goes.exists_yields situation.memory.notices
      obtain ⟨found', rfl, rfl⟩ := Option.map_eq_some_iff.mp some_eq.symm
      have spans' : found'.Spans situation.stream after.stream := (steady rule inside).sound.settles yields'
      exact ⟨rule, inside, found', _, yields', spans'.finish_eq⟩
    · intro index reaches
      obtain ⟨other, inside', found', after', yields', finish_eq⟩ := reaches
      obtain ⟨reached, reaches, le⟩ := others other inside'
      cases reaches.unique yields'.goesTo
      have spans' : found'.Spans situation.stream after'.stream := (steady other inside').sound.settles yields'
      exact Number.ofNat_injective (spans'.finish_eq.symm.trans finish_eq) ▸ le

/-- A conjunction does not depend on the order of its rules: whatever it and a conjunction of the same rules in another
order answer from a situation agrees, and both answer where the rules terminate. It matches exactly where each of its
rules matches by itself, and ends where the farthest of their matches ends. -/
theorem allOf_perm (steady : ∀ member ∈ rules, member.IsSteady world) (filled : rules ≠ [])
    (permuted : rules.Perm rules') (situation : Situation) :
    (∀ found after found' after', (allOf rules).Yields world situation found after →
      (allOf rules').Yields world situation found' after' →
        Option.Rel Match.Agrees found found' ∧ after.SameScene after') ∧
    ((∀ member ∈ rules, member.Terminates world situation) →
      (allOf rules).AnswersLike world (allOf rules') situation) ∧
    ((allOf rules).Matches world situation ↔ ∀ member ∈ rules, member.Matches world situation) ∧
    ∀ found after, (allOf rules).Yields world situation (some found) after →
      ∃ finish, found.finish = .ofNat finish ∧ IsGreatest (finishes world rules situation) finish := by
  have steady' : ∀ member ∈ rules', member.IsSteady world := fun member inside =>
    steady member (permuted.mem_iff.mpr inside)
  have filled' : rules' ≠ [] := fun empty => filled (List.perm_nil.mp (empty ▸ permuted))
  have together {result result' : Option TokenStream}
      (goes : (allOf rules).GoesTo world situation.memory.captures situation.stream result)
      (goes' : (allOf rules').GoesTo world situation.memory.captures situation.stream result') : result = result' :=
    have first := (goTogether_of_goesTo steady filled goes).perm permuted
    first.unique steady' (goTogether_of_goesTo steady' filled' goes')
  refine ⟨?_, ?_, ?_, fun found after yields => isGreatest_finish steady filled yields⟩
  · intro found after found' after' yields yields'
    exact agree_of_goesTo (.allOf steady) (.allOf steady') yields yields' (together yields.goesTo yields'.goesTo)
  · intro terminates
    have each {member : Rule} (inside : member ∈ rules) :=
      (steady member inside).exists_goesTo (terminates member inside)
    obtain ⟨result, goes⟩ := exists_goesTo_allOf steady fun member inside => each inside
    obtain ⟨result', goes'⟩ := exists_goesTo_allOf steady' fun member inside => each (permuted.mem_iff.mpr inside)
    obtain rfl := together goes goes'
    exact answersLike_of_goesTo (.allOf steady) (.allOf steady') goes goes'
  · simp only [matches_iff_goesTo]
    exact goesTo_allOf_some_iff steady filled

open Brackets in
/-- The opening bracket and the nested brackets match at the same place, and in both orders the conjunction takes the
four tokens of the nested brackets. -/
theorem allOf_swapped_agrees :
    [taking opening, nested].Perm [nested, taking opening] ∧
      ∃ (found found' : Match) (after after' : Situation), found.tokens.length = 4 ∧
        (allOf [taking opening, nested]).Yields Brackets.world ⟨Brackets.stream, {}⟩ (some found) after ∧
        (allOf [nested, taking opening]).Yields Brackets.world ⟨Brackets.stream, {}⟩ (some found') after' ∧
        found.Agrees found' ∧
        ∃ finish, found.finish = .ofNat finish ∧
          IsGreatest (finishes Brackets.world [taking opening, nested] ⟨Brackets.stream, {}⟩) finish := by
  have permuted : [taking opening, nested].Perm [nested, taking opening] := .swap ..
  have steady := steady_pair (pair_steady_parts (taking opening) (by simp)) nested_steady
  obtain ⟨agree, -, -, greatest⟩ :=
    allOf_perm steady (List.cons_ne_nil _ _) permuted ⟨Brackets.stream, {}⟩
  obtain ⟨found, after, yields, count⟩ :=
    exists_yields_of_count Brackets.world (allOf [taking opening, nested]) 14 4 Brackets.stream (by decide +kernel)
  obtain ⟨found', after', yields', -⟩ :=
    exists_yields_of_count Brackets.world (allOf [nested, taking opening]) 14 4 Brackets.stream (by decide +kernel)
  obtain ⟨together, -⟩ := agree _ _ _ _ yields yields'
  cases together with
  | some agrees => exact ⟨permuted, found, found', after, after', count, yields, yields', agrees, greatest _ _ yields⟩

end TokenGrammar.Rule
