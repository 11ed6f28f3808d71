import TokenGrammar.Proofs.Laws.Bodies

namespace TokenGrammar.Rule

open Run
open Attempt (Grows Gives gives_bind_iff gives_bind_const_iff gives_const_iff gives_pure_iff)

variable {world : World} {opening body closing self : Rule} {situation after : Situation}

/-- What a loop up to a closing rule does behind one of its steps. -/
def untilBehind (closing : Run) (step : Attempt (Option (List Token))) (fuel : Nat) :
    Option (List Token) → Attempt (Option (List Token))
  | none => return none
  | some tokens => do
    match ← untilClosed closing step fuel with
    | none => return none
    | some rest => return some (tokens ++ rest)

/-- What a loop up to a closing rule does behind a try of that rule. -/
def untilNext (closing : Run) (step : Attempt (Option (List Token))) (fuel : Nat) :
    Option Match → Attempt (Option (List Token))
  | some found => return some found.tokens
  | none => do
    if (← Attempt.stream).hasMore then step >>= untilBehind closing step fuel else return none

/-- A loop up to a closing rule tries that rule and goes on as it answers. -/
theorem untilClosed_succ (closing : Run) (step : Attempt (Option (List Token))) (fuel : Nat) :
    untilClosed closing step (fuel + 1) = closing >>= untilNext closing step fuel := rfl

section Until

variable {step : Nat → Attempt (Option (List Token))} (grows : Grows step)
include grows

theorem untilClosed_grows (closing : Rule) :
    Grows fun fuel => untilClosed (closing.run world fuel) (step fuel) fuel := fun _ _ enough =>
  untilClosed_approximates (run_approximates enough) (grows enough) enough

theorem laterUntilClosed_grows (closing : Rule) :
    Grows fun fuel => untilClosed (closing.run world (fuel + 1)) (step (fuel + 1)) fuel := fun _ _ enough =>
  untilClosed_approximates (run_approximates (Nat.succ_le_succ enough)) (grows (Nat.succ_le_succ enough)) enough

theorem untilBehind_grows (closing : Rule) (tokens : Option (List Token)) :
    Grows fun fuel => untilBehind (closing.run world (fuel + 1)) (step (fuel + 1)) fuel tokens := by
  cases tokens with
  | none => exact Grows.const _
  | some tokens => exact (laterUntilClosed_grows grows closing).bind fun _ => Grows.const _

theorem untilNext_grows (closing : Rule) (found : Option Match) :
    Grows fun fuel => untilNext (closing.run world (fuel + 1)) (step (fuel + 1)) fuel found := by
  cases found with
  | some found => exact Grows.const _
  | none =>
    refine (Grows.const _).bind fun stream => ?_
    cases stream.hasMore with
    | false => exact Grows.const _
    | true => exact grows.succ.bind (untilBehind_grows grows closing)

/-- The steps may have one unit of fuel more than the loop that makes them. -/
theorem gives_untilClosed_iff_lagging {taken : Option (List Token)} :
    Gives (fun fuel => untilClosed (closing.run world (fuel + 1)) (step (fuel + 1)) fuel) situation taken after ↔
      Gives (fun fuel => untilClosed (closing.run world fuel) (step fuel) fuel) situation taken after := by
  constructor
  · intro given
    obtain ⟨fuel, answers⟩ := given
    exact ⟨fuel + 1, (untilClosed_approximates (.refl _) (.refl _) (Nat.le_succ fuel)).eq_ok answers⟩
  · intro given
    obtain ⟨fuel, answers⟩ := given
    exact ⟨fuel, (untilClosed_approximates (run_approximates (Nat.le_succ fuel)) (grows (Nat.le_succ fuel))
      (Nat.le_refl fuel)).eq_ok answers⟩

/-- Behind a step the loop goes on, unless the step could not. -/
theorem gives_untilBehind_iff {tokens taken : Option (List Token)} :
    Gives (fun fuel => untilBehind (closing.run world (fuel + 1)) (step (fuel + 1)) fuel tokens) situation taken after ↔
      (tokens = none ∧ taken = none ∧ after = situation) ∨
      ∃ first rest, tokens = some first ∧
        Gives (fun fuel => untilClosed (closing.run world fuel) (step fuel) fuel) situation rest after ∧
          taken = rest.map (first ++ ·) := by
  cases tokens with
  | none =>
    simp only [untilBehind, gives_pure_iff]
    simp
  | some first =>
    refine (gives_bind_const_iff (laterUntilClosed_grows grows closing)).trans ?_
    simp only [gives_untilClosed_iff_lagging grows]
    constructor
    · intro given
      obtain ⟨rest, later, remaining, joins⟩ := given
      refine .inr ⟨first, rest, rfl, ?_⟩
      cases rest <;> cases joins <;> exact ⟨remaining, rfl⟩
    · intro given
      rcases given with ⟨none_eq, -, -⟩ | ⟨_, rest, ⟨⟩, remaining, rfl⟩
      · cases none_eq
      · refine ⟨rest, after, remaining, ?_⟩
        cases rest <;> rfl

/-- Where the closing rule does not match, a step is made if a visible token is ahead. -/
theorem gives_untilNext_none_iff {taken : Option (List Token)} :
    Gives (fun fuel => untilNext (closing.run world (fuel + 1)) (step (fuel + 1)) fuel none) situation taken after ↔
      (situation.stream.hasMore = false ∧ taken = none ∧ after = situation) ∨
      (situation.stream.hasMore = true ∧ ∃ tokens later, Gives step situation tokens later ∧
        Gives (fun fuel => untilBehind (closing.run world (fuel + 1)) (step (fuel + 1)) fuel tokens) later taken
          after) := by
  cases more : situation.stream.hasMore with
  | false =>
    have ends (fuel : Nat) : untilNext (closing.run world (fuel + 1)) (step (fuel + 1)) fuel none situation =
        (pure none : Attempt (Option (List Token))) situation := by
      rw [untilNext, Attempt.stream_bind_apply, more, if_neg Bool.false_ne_true]
    calc
      Gives (fun fuel => untilNext (closing.run world (fuel + 1)) (step (fuel + 1)) fuel none) situation taken after
        ↔ Gives (fun _ => (pure none : Attempt (Option (List Token)))) situation taken after :=
          exists_congr fun fuel => Eq.congr_left (ends fuel)
      _ ↔ taken = none ∧ after = situation := gives_pure_iff
      _ ↔ _ := by simp
  | true =>
    have goesOn (fuel : Nat) : untilNext (closing.run world (fuel + 1)) (step (fuel + 1)) fuel none situation =
        (step (fuel + 1) >>= untilBehind (closing.run world (fuel + 1)) (step (fuel + 1)) fuel) situation := by
      rw [untilNext, Attempt.stream_bind_apply, more, if_pos rfl]
    calc
      Gives (fun fuel => untilNext (closing.run world (fuel + 1)) (step (fuel + 1)) fuel none) situation taken after
        ↔ Gives (fun fuel => step (fuel + 1) >>= untilBehind (closing.run world (fuel + 1)) (step (fuel + 1)) fuel)
            situation taken after := exists_congr fun fuel => Eq.congr_left (goesOn fuel)
      _ ↔ ∃ tokens later, Gives step situation tokens later ∧
            Gives (fun fuel => untilBehind (closing.run world (fuel + 1)) (step (fuel + 1)) fuel tokens) later taken
              after := by
          rw [gives_bind_iff grows.succ (untilBehind_grows grows closing)]
          simp only [grows.gives_succ_iff]
      _ ↔ _ := by simp

/-- Up to its closing rule a loop ends where that rule matches, where the input has ended, or where a step cannot go on,
and goes on behind a step that can. -/
theorem gives_untilClosed_iff {taken : Option (List Token)} :
    Gives (fun fuel => untilClosed (closing.run world fuel) (step fuel) fuel) situation taken after ↔
      (∃ found, closing.Yields world situation (some found) after ∧ taken = some found.tokens) ∨
      ∃ middle, closing.Yields world situation none middle ∧
        ((middle.stream.hasMore = false ∧ taken = none ∧ after = middle) ∨
          (middle.stream.hasMore = true ∧
            ((Gives step middle none after ∧ taken = none) ∨
              ∃ first later rest, Gives step middle (some first) later ∧
                Gives (fun fuel => untilClosed (closing.run world fuel) (step fuel) fuel) later rest after ∧
                  taken = rest.map (first ++ ·)))) := by
  rw [← (untilClosed_grows grows closing).gives_succ_iff]
  simp only [untilClosed_succ]
  rw [gives_bind_iff run_grows.succ (untilNext_grows grows closing)]
  simp only [run_grows.gives_succ_iff]
  constructor
  · intro holds
    obtain ⟨found, middle, yields, given⟩ := holds
    cases found with
    | some found =>
      obtain ⟨rfl, rfl⟩ := gives_pure_iff.mp given
      exact .inl ⟨found, yields, rfl⟩
    | none =>
      refine .inr ⟨middle, yields, ?_⟩
      rcases (gives_untilNext_none_iff grows).mp given with ended | ⟨more, tokens, later, steps, behind⟩
      · exact .inl ended
      · refine .inr ⟨more, ?_⟩
        rcases (gives_untilBehind_iff grows).mp behind with ⟨rfl, rfl, rfl⟩ | ⟨first, rest, rfl, remaining, rfl⟩
        · exact .inl ⟨steps, rfl⟩
        · exact .inr ⟨first, later, rest, steps, remaining, rfl⟩
  · intro holds
    rcases holds with ⟨found, yields, rfl⟩ | ⟨middle, yields, ended | ⟨more, stuck | next⟩⟩
    · exact ⟨some found, after, yields, gives_pure_iff.mpr ⟨rfl, rfl⟩⟩
    · exact ⟨none, middle, yields, (gives_untilNext_none_iff grows).mpr (.inl ended)⟩
    · obtain ⟨steps, rfl⟩ := stuck
      refine ⟨none, middle, yields, (gives_untilNext_none_iff grows).mpr (.inr ⟨more, none, after, steps, ?_⟩)⟩
      exact (gives_untilBehind_iff grows).mpr (.inl ⟨rfl, rfl, rfl⟩)
    · obtain ⟨first, later, rest, steps, remaining, rfl⟩ := next
      refine ⟨none, middle, yields, (gives_untilNext_none_iff grows).mpr (.inr ⟨more, some first, later, steps, ?_⟩)⟩
      exact (gives_untilBehind_iff grows).mpr (.inr ⟨first, rest, rfl, remaining, rfl⟩)

end Until

theorem bodyStep_grows (body : Rule) : Grows fun fuel => bodyStep (body.run world fuel) := fun _ _ enough =>
  bodyStep_approximates (run_approximates enough)

/-- A step of a body cannot go on where the body fails or takes nothing. -/
theorem gives_bodyStep_none_iff :
    Gives (fun fuel => bodyStep (body.run world fuel)) situation none after ↔
      body.Yields world situation none after ∨
        ∃ found, body.Yields world situation (some found) after ∧ found.isZeroWidth = true := by
  refine (gives_bind_const_iff run_grows).trans ?_
  constructor
  · intro given
    obtain ⟨found, middle, yields, answers⟩ := given
    cases found with
    | none =>
      cases answers
      exact .inl yields
    | some found =>
      cases zeroWidth : found.isZeroWidth with
      | true =>
        simp only [zeroWidth, if_true] at answers
        cases answers
        exact .inr ⟨found, yields, zeroWidth⟩
      | false =>
        simp only [zeroWidth, Bool.false_eq_true, if_false] at answers
        cases answers
  · intro given
    rcases given with yields | ⟨found, yields, zeroWidth⟩
    · exact ⟨none, after, yields, rfl⟩
    · refine ⟨some found, after, yields, ?_⟩
      simp only [zeroWidth, if_true]
      rfl

/-- A step of a body takes what the body takes. -/
theorem gives_bodyStep_some_iff {tokens : List Token} :
    Gives (fun fuel => bodyStep (body.run world fuel)) situation (some tokens) after ↔
      ∃ found, body.Yields world situation (some found) after ∧ found.isZeroWidth = false ∧ tokens = found.tokens := by
  refine (gives_bind_const_iff run_grows).trans ?_
  constructor
  · intro given
    obtain ⟨found, middle, yields, answers⟩ := given
    cases found with
    | none => cases answers
    | some found =>
      cases zeroWidth : found.isZeroWidth with
      | true =>
        simp only [zeroWidth, if_true] at answers
        cases answers
      | false =>
        simp only [zeroWidth, Bool.false_eq_true, if_false] at answers
        cases answers
        exact ⟨found, yields, zeroWidth, rfl⟩
  · intro given
    obtain ⟨found, yields, filled, rfl⟩ := given
    refine ⟨some found, after, yields, ?_⟩
    simp only [filled, Bool.false_eq_true, if_false]
    rfl

/-- A step without a body takes the next visible token. -/
theorem gives_tokenStep_iff {token : Token} {next : TokenStream} {taken : Option (List Token)}
    (read : situation.stream.read? = some (token, next)) :
    Gives (fun _ => tokenStep) situation taken after ↔
      taken = some [token] ∧ after = { situation with stream := next } := by
  rw [gives_const_iff, tokenStep, Attempt.read_bind_apply _ read]
  constructor
  · intro answers
    cases answers
    exact ⟨rfl, rfl⟩
  · intro same
    obtain ⟨rfl, rfl⟩ := same
    rfl

section Bounded

variable {step : Nat → Attempt (Option (List Token))} (opens : opening.IsSound world)
  (closes : closing.IsSound world)
  (collects : ∀ fuel situation, situation.stream.hasMore = true →
    Meets (step fuel situation) (Collects situation.stream))
  (grows : Grows step)
include opens closes collects

/-- What a boundary takes was read on the way. -/
theorem reads_of_bounded {found : Match} {middle : Situation} {tokens : List Token}
    (yields : opening.Yields world situation (some found) middle)
    (given : Gives (fun fuel => untilClosed (closing.run world fuel) (step fuel) fuel) middle (some tokens) after) :
    situation.stream.Reads (found.tokens ++ tokens) after.stream := by
  have spans : found.Spans situation.stream middle.stream := opens.settles yields
  have others : middle.stream.Reads tokens after.stream :=
    given.meets fun fuel => untilClosed_collects (closes fuel) (collects fuel) fuel
  exact spans.reads.append others

include grows

/-- A boundary fails with its opening rule or with the loop behind that, and otherwise matches what both take. -/
theorem gives_bounded_iff {answer : Option Match} :
    Gives (fun fuel => bounded (opening.run world fuel) (closing.run world fuel) (step fuel) fuel self) situation answer
        after ↔
      (opening.Yields world situation none after ∧ answer = none) ∨
      ∃ found middle, opening.Yields world situation (some found) middle ∧
        ∃ taken, Gives (fun fuel => untilClosed (closing.run world fuel) (step fuel) fuel) middle taken after ∧
          answer = taken.map fun tokens => .between situation.stream after.stream (found.tokens ++ tokens) self := by
  refine (gives_bind_iff run_grows ?_).trans ?_
  · intro found
    cases found with
    | none => exact Grows.const _
    | some found => exact (untilClosed_grows grows closing).bind fun _ => Grows.const _
  · constructor
    · intro given
      obtain ⟨found, middle, yields, goesOn⟩ := given
      cases found with
      | none =>
        obtain ⟨rfl, rfl⟩ := gives_pure_iff.mp goesOn
        exact .inl ⟨yields, rfl⟩
      | some found =>
        obtain ⟨taken, later, loops, answers⟩ := (gives_bind_const_iff (untilClosed_grows grows closing)).mp goesOn
        refine .inr ⟨found, middle, yields, taken, ?_⟩
        cases taken with
        | none =>
          cases answers
          exact ⟨loops, rfl⟩
        | some tokens =>
          simp only [since_apply (reads_of_bounded opens closes collects yields loops)] at answers
          cases answers
          exact ⟨loops, rfl⟩
    · intro given
      rcases given with ⟨yields, rfl⟩ | ⟨found, middle, yields, taken, loops, rfl⟩
      · exact ⟨none, after, yields, gives_pure_iff.mpr ⟨rfl, rfl⟩⟩
      · refine ⟨some found, middle, yields, (gives_bind_const_iff (untilClosed_grows grows closing)).mpr ?_⟩
        refine ⟨taken, after, loops, ?_⟩
        cases taken with
        | none => rfl
        | some tokens => exact since_apply (reads_of_bounded opens closes collects yields loops)

/-- Where a boundary ends is decided by its opening rule and by the loop behind that. -/
theorem ends_bounded_iff {result : Option TokenStream} (traced : self.Traced world)
    (runs : self.bodyRun world = fun fuel =>
      bounded (opening.run world fuel) (closing.run world fuel) (step fuel) fuel self) :
    (∃ answer after, self.Yields world situation answer after ∧ result = answer.map fun _ => after.stream) ↔
      (∃ after, opening.Yields world situation none after ∧ result = none) ∨
      ∃ found middle, opening.Yields world situation (some found) middle ∧
        ∃ taken after, Gives (fun fuel => untilClosed (closing.run world fuel) (step fuel) fuel) middle taken after ∧
          result = taken.map fun _ => after.stream := by
  have body_iff {answer : Option Match} {after : Situation} :
      Gives (self.bodyRun world) situation answer after ↔ _ :=
    runs ▸ gives_bounded_iff opens closes collects grows
  have matched {found : Match} {middle after : Situation} {taken : Option (List Token)}
      (begins : opening.Yields world situation (some found) middle)
      (loops : Gives (fun fuel => untilClosed (closing.run world fuel) (step fuel) fuel) middle taken after) :
      Ends situation.stream
        (taken.map fun tokens => .between situation.stream after.stream (found.tokens ++ tokens) self)
        (taken.map fun _ => after.stream) := by
    cases taken with
    | none => exact .none
    | some tokens => exact .some (Match.spans_between (reads_of_bounded opens closes collects begins loops) self)
  rw [traced.ends_iff]
  constructor
  · intro holds
    obtain ⟨answer, after, given, ends⟩ := holds
    rcases body_iff.mp given with ⟨fails, rfl⟩ | ⟨found, middle, begins, taken, loops, rfl⟩
    · cases ends
      exact .inl ⟨after, fails, rfl⟩
    · exact .inr ⟨found, middle, begins, taken, after, loops, ends.unique (matched begins loops)⟩
  · intro holds
    rcases holds with ⟨after, fails, rfl⟩ | ⟨found, middle, begins, taken, after, loops, rfl⟩
    · exact ⟨none, after, body_iff.mpr (.inl ⟨fails, rfl⟩), .none⟩
    · exact ⟨_, after, body_iff.mpr (.inr ⟨found, middle, begins, taken, loops, rfl⟩), matched begins loops⟩

end Bounded

theorem boundary_traced (opens : opening.IsSound world) (closes : closing.IsSound world) :
    (Rule.boundary opening closing).Traced world where
  inside := nofun
  traces fuel _ := bounded_traces (opens fuel) (closes fuel) (fun _ => tokenStep_collects) fuel

theorem filledBoundary_traced (opens : opening.IsSound world) (fills : body.IsSound world)
    (closes : closing.IsSound world) : (Rule.filledBoundary opening body closing).Traced world where
  inside := nofun
  traces fuel _ := bounded_traces (opens fuel) (closes fuel) (fun _ _ => (fills fuel).bodyStep_collects) fuel

end TokenGrammar.Rule
