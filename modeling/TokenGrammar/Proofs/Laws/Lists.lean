import TokenGrammar.Proofs.Laws.Bodies

namespace TokenGrammar.Rule

open Run
open Attempt (Grows Gives gives_bind_iff gives_bind_const_iff gives_const_iff gives_pure_iff gives_apart_iff)

variable {world : World} {rule : Rule} {rules : List Rule} {situation after : Situation} {found : Match}

theorem inTurn_grows (rules : List Rule) : Grows fun fuel => inTurn (run world fuel) rules := fun _ _ enough =>
  inTurn_approximates (fun _ => run_approximates enough) rules

theorem gives_inTurn_nil_iff {taken : Option (List Token)} :
    Gives (fun fuel => inTurn (run world fuel) []) situation taken after ↔ taken = some [] ∧ after = situation :=
  gives_pure_iff

/-- A sequence fails with its first rule or goes on behind its match. -/
theorem gives_inTurn_cons_iff {taken : Option (List Token)} :
    Gives (fun fuel => inTurn (run world fuel) (rule :: rules)) situation taken after ↔
      (rule.Yields world situation none after ∧ taken = none) ∨
        ∃ found middle, rule.Yields world situation (some found) middle ∧
          ∃ rest, Gives (fun fuel => inTurn (run world fuel) rules) middle rest after ∧
            taken = rest.map (found.tokens ++ ·) := by
  refine (gives_bind_iff run_grows ?_).trans ?_
  · intro found
    cases found with
    | none => exact Grows.const _
    | some found => exact (inTurn_grows rules).bind fun _ => Grows.const _
  · constructor
    · intro given
      obtain ⟨found, middle, yields, goesOn⟩ := given
      cases found with
      | none =>
        rw [gives_const_iff] at goesOn
        cases goesOn
        exact .inl ⟨yields, rfl⟩
      | some found =>
        obtain ⟨rest, later, remaining, joins⟩ := (gives_bind_const_iff (inTurn_grows rules)).mp goesOn
        refine .inr ⟨found, middle, yields, rest, ?_⟩
        cases rest <;> cases joins <;> exact ⟨remaining, rfl⟩
    · intro given
      rcases given with ⟨yields, rfl⟩ | ⟨found, middle, yields, rest, remaining, rfl⟩
      · exact ⟨none, after, yields, gives_const_iff.mpr rfl⟩
      · refine ⟨some found, middle, yields, (gives_bind_const_iff (inTurn_grows rules)).mpr ?_⟩
        refine ⟨rest, after, remaining, ?_⟩
        cases rest <;> rfl

section Sequences

variable (sound : ∀ member ∈ rules, member.IsSound world)
include sound

theorem sequence_traced : (Rule.sequence rules).Traced world where
  inside := nofun
  traces fuel _ := sequence_traces fun member inside => sound member inside fuel

/-- What a sequence gives was read on the way. -/
theorem reads_of_inTurn {tokens : List Token}
    (given : Gives (fun fuel => inTurn (run world fuel) rules) situation (some tokens) after) :
    situation.stream.Reads tokens after.stream :=
  given.meets fun fuel => inTurn_collects fun member inside => sound member inside fuel

/-- A sequence fails when one of its rules does; the stream is put back. -/
theorem yields_sequence_none_iff :
    (Rule.sequence rules).Yields world situation none after ↔
      ∃ middle, Gives (fun fuel => inTurn (run world fuel) rules) situation none middle ∧
        after = { middle with stream := situation.stream } := by
  rw [yields_none_iff (sequence_traced sound)]
  constructor
  · intro holds
    obtain ⟨middle, given, rfl⟩ := holds
    obtain ⟨taken, later, inner, answers⟩ := (gives_bind_const_iff (inTurn_grows rules)).mp given
    cases taken with
    | none =>
      cases answers
      exact ⟨middle, inner, rfl⟩
    | some tokens =>
      simp only [since_apply (reads_of_inTurn sound inner)] at answers
      cases answers
  · intro given
    obtain ⟨middle, inner, rfl⟩ := given
    exact ⟨middle, (gives_bind_const_iff (inTurn_grows rules)).mpr ⟨none, middle, inner, rfl⟩, rfl⟩

/-- A sequence matches all that its rules take together. -/
theorem yields_sequence_some_iff :
    (Rule.sequence rules).Yields world situation (some found) after ↔
      ∃ tokens, Gives (fun fuel => inTurn (run world fuel) rules) situation (some tokens) after ∧
        found = .between situation.stream after.stream tokens (.sequence rules) := by
  rw [yields_some_iff (sequence_traced sound)]
  constructor
  · intro holds
    obtain ⟨middle, given, spans, memory_eq⟩ := holds
    obtain ⟨taken, later, inner, answers⟩ := (gives_bind_const_iff (inTurn_grows rules)).mp given
    cases taken with
    | none => cases answers
    | some tokens =>
      have reads := reads_of_inTurn sound inner
      simp only [since_apply reads] at answers
      cases answers
      have stream_eq : after.stream = middle.stream := spans.reads.unique reads
      have after_eq : after = middle := Situation.ext stream_eq memory_eq
      exact ⟨tokens, after_eq ▸ inner, by rw [after_eq]⟩
  · intro given
    obtain ⟨tokens, inner, rfl⟩ := given
    have reads := reads_of_inTurn sound inner
    refine ⟨after, (gives_bind_const_iff (inTurn_grows rules)).mpr ⟨some tokens, after, inner, ?_⟩, ?_, rfl⟩
    · exact since_apply reads
    · exact Match.spans_between reads _

end Sequences

/-- A rule that is tried apart leaves the stream where it is to what goes on. -/
theorem gives_tried_bind_iff {α : Type} {next : Nat → Option Match → Attempt α} {answer : α}
    (grow : ∀ found, Grows fun fuel => next fuel found) :
    Gives (fun fuel => Attempt.apart id (rule.run world fuel) >>= next fuel) situation answer after ↔
      ∃ found middle, rule.Yields world situation found middle ∧
        Gives (fun fuel => next fuel found) { middle with stream := situation.stream } answer after := by
  rw [gives_bind_iff (run_grows.apart id) grow]
  constructor
  · intro given
    obtain ⟨found, later, apart, goesOn⟩ := given
    obtain ⟨middle, yields, rfl⟩ := gives_apart_iff.mp apart
    exact ⟨found, middle, yields, goesOn⟩
  · intro given
    obtain ⟨found, middle, yields, goesOn⟩ := given
    exact ⟨found, _, gives_apart_iff.mpr ⟨middle, yields, rfl⟩, goesOn⟩

theorem firstOf_grows (rules : List Rule) : Grows fun fuel => firstOf (run world fuel) rules := fun _ _ enough =>
  firstOf_approximates (fun _ => run_approximates enough) rules

theorem gives_firstOf_nil_iff {answer : Option Match} :
    Gives (fun fuel => firstOf (run world fuel) []) situation answer after ↔ answer = none ∧ after = situation :=
  gives_pure_iff

/-- A choice takes its first alternative if that matches and goes on with the others at the same place if not. -/
theorem gives_firstOf_cons_iff {answer : Option Match} :
    Gives (fun fuel => firstOf (run world fuel) (rule :: rules)) situation answer after ↔
      (∃ found middle, rule.Yields world situation (some found) middle ∧ answer = some found ∧
        after = { middle with stream := situation.stream }) ∨
      ∃ middle, rule.Yields world situation none middle ∧
        Gives (fun fuel => firstOf (run world fuel) rules) { middle with stream := situation.stream } answer after := by
  refine (gives_tried_bind_iff ?_).trans ?_
  · intro found
    cases found with
    | none => exact firstOf_grows rules
    | some found => exact Grows.const _
  · constructor
    · intro given
      obtain ⟨found, middle, yields, goesOn⟩ := given
      cases found with
      | none => exact .inr ⟨middle, yields, goesOn⟩
      | some found =>
        obtain ⟨rfl, rfl⟩ := gives_pure_iff.mp goesOn
        exact .inl ⟨found, middle, yields, rfl, rfl⟩
    · intro given
      rcases given with ⟨found, middle, yields, rfl, rfl⟩ | ⟨middle, yields, goesOn⟩
      · exact ⟨some found, middle, yields, gives_pure_iff.mpr ⟨rfl, rfl⟩⟩
      · exact ⟨none, middle, yields, goesOn⟩

theorem anyOf_traced (sound : ∀ member ∈ rules, member.IsSound world) : (Rule.anyOf rules).Traced world where
  inside := nofun
  traces fuel _ := firstOf_traces fun member inside => sound member inside fuel

theorem farthestOf_grows (farthest : Option Match) (rules : List Rule) :
    Grows fun fuel => farthestOf (run world fuel) farthest rules := fun _ _ enough =>
  farthestOf_approximates (fun _ => run_approximates enough) rules farthest

theorem gives_farthestOf_nil_iff {farthest answer : Option Match} :
    Gives (fun fuel => farthestOf (run world fuel) farthest []) situation answer after ↔
      answer = farthest ∧ after = situation :=
  gives_pure_iff

/-- A conjunction fails with its first rule or goes on at the same place with the farthest match so far. -/
theorem gives_farthestOf_cons_iff {farthest answer : Option Match} :
    Gives (fun fuel => farthestOf (run world fuel) farthest (rule :: rules)) situation answer after ↔
      (∃ middle, rule.Yields world situation none middle ∧ answer = none ∧
        after = { middle with stream := situation.stream }) ∨
      ∃ found middle, rule.Yields world situation (some found) middle ∧
        Gives (fun fuel => farthestOf (run world fuel) (some (farthest.elim found (farther · found))) rules)
          { middle with stream := situation.stream } answer after := by
  refine (gives_tried_bind_iff ?_).trans ?_
  · intro found
    cases found with
    | none => exact Grows.const _
    | some found => exact farthestOf_grows _ rules
  · constructor
    · intro given
      obtain ⟨found, middle, yields, goesOn⟩ := given
      cases found with
      | none =>
        obtain ⟨rfl, rfl⟩ := gives_pure_iff.mp goesOn
        exact .inl ⟨middle, yields, rfl, rfl⟩
      | some found =>
        refine .inr ⟨found, middle, yields, ?_⟩
        cases farthest <;> exact goesOn
    · intro given
      rcases given with ⟨middle, yields, rfl, rfl⟩ | ⟨found, middle, yields, goesOn⟩
      · exact ⟨none, middle, yields, gives_pure_iff.mpr ⟨rfl, rfl⟩⟩
      · refine ⟨some found, middle, yields, ?_⟩
        cases farthest <;> exact goesOn

theorem gives_farthestOf_none_iff {answer : Option Match} :
    Gives (fun fuel => farthestOf (run world fuel) none (rule :: rules)) situation answer after ↔
      (∃ middle, rule.Yields world situation none middle ∧ answer = none ∧
        after = { middle with stream := situation.stream }) ∨
      ∃ found middle, rule.Yields world situation (some found) middle ∧
        Gives (fun fuel => farthestOf (run world fuel) (some found) rules) { middle with stream := situation.stream }
          answer after :=
  gives_farthestOf_cons_iff

theorem allOf_traced (sound : ∀ member ∈ rules, member.IsSound world) : (Rule.allOf rules).Traced world where
  inside := nofun
  traces fuel _ := farthestOf_traces trivial fun member inside => sound member inside fuel

/-- Among matches from one place it does not matter which two are compared first. -/
theorem farther_assoc {start finish finish' finish'' : TokenStream} {first second third : Match}
    (spans : first.Spans start finish) (spans' : second.Spans start finish') (spans'' : third.Spans start finish'') :
    farther (farther first second) third = farther first (farther second third) := by
  have firstSecond := spans.lessThan_eq spans'
  have secondThird := spans'.lessThan_eq spans''
  have firstThird := spans.lessThan_eq spans''
  by_cases less : first.tokens.length < second.tokens.length <;>
    by_cases less' : second.tokens.length < third.tokens.length <;>
    by_cases less'' : first.tokens.length < third.tokens.length <;>
    simp only [farther, firstSecond, secondThird, firstThird, less, less', less'', decide_true, decide_false, if_true,
      if_false, Bool.false_eq_true] <;> omega

/-- What is known to be the farthest match so far is compared with the farthest of the others. -/
theorem gives_farthestOf_some_iff {next : Rule} {known : Match} {place : TokenStream} {answer : Option Match}
    (sound : ∀ member ∈ next :: rules, member.IsSound world) (spans : known.Spans situation.stream place) :
    Gives (fun fuel => farthestOf (run world fuel) (some known) (next :: rules)) situation answer after ↔
      ∃ others, Gives (fun fuel => farthestOf (run world fuel) none (next :: rules)) situation others after ∧
        answer = others.map (farther known) := by
  -- The match known so far changes from rule to rule, so it is general in the induction on the rules.
  induction rules generalizing next known place situation answer with
  | nil =>
    simp only [gives_farthestOf_cons_iff, gives_farthestOf_nil_iff, Option.elim]
    constructor
    · intro given
      rcases given with ⟨middle, yields, rfl, rfl⟩ | ⟨found, middle, yields, rfl, rfl⟩
      · exact ⟨none, .inl ⟨middle, yields, rfl, rfl⟩, rfl⟩
      · exact ⟨some found, .inr ⟨found, middle, yields, rfl, rfl⟩, rfl⟩
    · intro given
      obtain ⟨_, ⟨middle, yields, rfl, rfl⟩ | ⟨found, middle, yields, rfl, rfl⟩, rfl⟩ := given
      · exact .inl ⟨middle, yields, rfl, rfl⟩
      · exact .inr ⟨found, middle, yields, rfl, rfl⟩
  | cons second rest ih =>
    have soundRest : ∀ member ∈ second :: rest, member.IsSound world := fun member inside =>
      sound member (List.mem_cons_of_mem _ inside)
    have spansOf {found : Match} {middle : Situation} (yields : next.Yields world situation (some found) middle) :
        found.Spans situation.stream middle.stream := (sound next (List.mem_cons_self ..)).settles yields
    have regroup {found : Match} {middle : Situation} {others : Option Match} {later : Situation}
        (found_spans : found.Spans situation.stream middle.stream)
        (given : Gives (fun fuel => farthestOf (run world fuel) none (second :: rest))
          { middle with stream := situation.stream } others later) :
        others.map (farther (farther known found)) = (others.map (farther found)).map (farther known) := by
      have traced : Traces situation.stream others := given.meets fun fuel =>
        farthestOf_traces trivial fun member inside => soundRest member inside fuel
      cases others with
      | none => rfl
      | some other =>
        obtain ⟨finish, other_spans⟩ := traced
        exact congrArg some (farther_assoc spans found_spans other_spans)
    have fromHere {farthest : Match} {finish : TokenStream} {middle : Situation} {answer : Option Match}
        (spans : farthest.Spans situation.stream finish) :
        Gives (fun fuel => farthestOf (run world fuel) (some farthest) (second :: rest))
            { middle with stream := situation.stream } answer after ↔
          ∃ others, Gives (fun fuel => farthestOf (run world fuel) none (second :: rest))
            { middle with stream := situation.stream } others after ∧ answer = others.map (farther farthest) :=
      ih soundRest spans
    constructor
    · intro given
      rcases gives_farthestOf_cons_iff.mp given with ⟨middle, yields, rfl, rfl⟩ | ⟨found, middle, yields, goesOn⟩
      · exact ⟨none, gives_farthestOf_cons_iff.mpr (.inl ⟨middle, yields, rfl, rfl⟩), rfl⟩
      · obtain ⟨_, both_span⟩ := farther_traces ⟨_, spans⟩ ⟨_, spansOf yields⟩
        obtain ⟨others, remaining, rfl⟩ := (fromHere both_span).mp goesOn
        refine ⟨others.map (farther found), gives_farthestOf_cons_iff.mpr (.inr ⟨found, middle, yields, ?_⟩), ?_⟩
        · exact (fromHere (spansOf yields)).mpr ⟨others, remaining, rfl⟩
        · exact regroup (spansOf yields) remaining
    · intro holds
      obtain ⟨answer', given, rfl⟩ := holds
      rcases gives_farthestOf_cons_iff.mp given with ⟨middle, yields, rfl, rfl⟩ | ⟨found, middle, yields, goesOn⟩
      · exact gives_farthestOf_cons_iff.mpr (.inl ⟨middle, yields, rfl, rfl⟩)
      · obtain ⟨_, both_span⟩ := farther_traces ⟨_, spans⟩ ⟨_, spansOf yields⟩
        obtain ⟨others, remaining, rfl⟩ := (fromHere (spansOf yields)).mp goesOn
        refine gives_farthestOf_cons_iff.mpr (.inr ⟨found, middle, yields, (fromHere both_span).mpr ?_⟩)
        exact ⟨others, remaining, (regroup (spansOf yields) remaining).symm⟩

end TokenGrammar.Rule
