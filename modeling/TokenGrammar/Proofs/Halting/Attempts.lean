import TokenGrammar.Proofs.Laws.Repetitions

namespace TokenGrammar

namespace Attempt

variable {α β : Type} {attempt other : Nat → Attempt α} {next : Nat → α → Attempt β} {situation : Situation}

/-- An attempt finishes when it needs no fuel. -/
def Finishes (attempt : Attempt α) : Prop := ∀ situation after, attempt situation ≠ .error .exhausted after

/-- A family of attempts halts in a situation when the fuel of one of them does not run out. -/
def Halts (attempt : Nat → Attempt α) (situation : Situation) : Prop :=
  ∃ fuel, ∀ after, attempt fuel situation ≠ .error .exhausted after

theorem finishes_pure (answer : α) : Finishes (pure answer : Attempt α) := fun _ _ => nofun

theorem finishes_stream : Finishes Attempt.stream := fun _ _ => nofun

theorem finishes_goTo (place : TokenStream) : Finishes (Attempt.goTo place) := fun _ _ => nofun

theorem finishes_captures : Finishes Attempt.captures := fun _ _ => nofun

theorem finishes_setCaptures (captures : Captures) : Finishes (Attempt.setCaptures captures) := fun _ _ => nofun

theorem finishes_notice (notice : Notice) : Finishes (Attempt.notice notice) := fun _ _ => nofun

theorem finishes_ofResult (result : Except Fault α) : Finishes (Attempt.ofResult result) := by
  cases result <;> exact fun _ _ => nofun

theorem Finishes.bind {first : Attempt α} {second : α → Attempt β} (finishes : Finishes first)
    (others : ∀ answer, Finishes (second answer)) : Finishes (first >>= second) := by
  intro situation after exhausted
  rw [Stateful.bind_apply] at exhausted
  match outcome : first situation with
  | .ok answer middle =>
    rw [outcome] at exhausted
    exact others answer middle after exhausted
  | .error stop middle =>
    rw [outcome] at exhausted
    cases exhausted
    exact finishes situation after outcome

theorem finishes_read : Finishes Attempt.read :=
  finishes_stream.bind fun _ => (finishes_ofResult _).bind fun _ => (finishes_goTo _).bind fun _ => finishes_pure _

theorem Finishes.halts {attempt : Attempt α} (finishes : Finishes attempt) : Halts (fun _ => attempt) situation :=
  ⟨0, finishes situation⟩

/-- What halts halts with all the more fuel. -/
theorem Grows.exists_enough (grows : Grows attempt) (halts : Halts attempt situation) :
    ∃ enough, ∀ fuel, enough ≤ fuel → ∀ after, attempt fuel situation ≠ .error .exhausted after := by
  obtain ⟨enough, finished⟩ := halts
  refine ⟨enough, fun fuel atLeast after exhausted => ?_⟩
  rcases grows atLeast situation with ⟨middle, exhausts⟩ | same
  · exact finished middle exhausts
  · exact finished after (same.trans exhausted)

/-- What halts makes halt what it approximates. -/
theorem Halts.of_approximates (halts : Halts attempt situation)
    (approximates : ∀ fuel, (attempt fuel).Approximates (other fuel)) : Halts other situation := by
  obtain ⟨fuel, finished⟩ := halts
  refine ⟨fuel, fun after exhausted => ?_⟩
  rcases approximates fuel situation with ⟨middle, exhausts⟩ | same
  · exact finished middle exhausts
  · exact finished after (same.trans exhausted)

theorem Grows.halts_succ (grows : Grows attempt) (halts : Halts attempt situation) :
    Halts (fun fuel => attempt (fuel + 1)) situation :=
  halts.of_approximates fun fuel => grows (Nat.le_succ fuel)

theorem Halts.of_succ (halts : Halts (fun fuel => attempt (fuel + 1)) situation) : Halts attempt situation := by
  obtain ⟨fuel, finished⟩ := halts
  exact ⟨fuel + 1, finished⟩

/-- One after the other, growing families halt when the later one halts wherever the earlier one leads. -/
theorem Halts.bind (halts : Halts attempt situation) (grows : Grows attempt)
    (grow : ∀ answer, Grows fun fuel => next fuel answer)
    (others : ∀ answer middle, Gives attempt situation answer middle → Halts (fun fuel => next fuel answer) middle) :
    Halts (fun fuel => attempt fuel >>= next fuel) situation := by
  obtain ⟨fuel, finished⟩ := halts
  match outcome : attempt fuel situation with
  | .error stop middle =>
    refine ⟨fuel, fun after exhausted => ?_⟩
    simp only [Stateful.bind_apply, outcome] at exhausted
    cases exhausted
    exact finished _ outcome
  | .ok answer middle =>
    obtain ⟨enough, finishes⟩ := (grow answer).exists_enough (others answer middle ⟨fuel, outcome⟩)
    refine ⟨max fuel enough, fun after exhausted => ?_⟩
    simp only [Stateful.bind_apply, grows.eq_of_le outcome (Nat.le_max_left fuel enough)] at exhausted
    exact finishes _ (Nat.le_max_right fuel enough) after exhausted

theorem Halts.bind_finishes {next : α → Attempt β} (halts : Halts attempt situation) (grows : Grows attempt)
    (finishes : ∀ answer, Finishes (next answer)) : Halts (fun fuel => attempt fuel >>= next) situation :=
  halts.bind grows (fun _ => Grows.const _) fun answer _ _ => (finishes answer).halts

/-- What goes on from the stream at hand halts when it does for that stream. -/
theorem halts_stream_bind {next : Nat → TokenStream → Attempt β}
    (halts : Halts (fun fuel => next fuel situation.stream) situation) :
    Halts (fun fuel => Attempt.stream >>= next fuel) situation := halts

theorem halts_captures_bind {next : Nat → Captures → Attempt β}
    (halts : Halts (fun fuel => next fuel situation.memory.captures) situation) :
    Halts (fun fuel => Attempt.captures >>= next fuel) situation := halts

theorem Halts.apart {view : TokenStream → TokenStream}
    (halts : Halts attempt { situation with stream := view situation.stream }) :
    Halts (fun fuel => Attempt.apart view (attempt fuel)) situation := by
  obtain ⟨fuel, finished⟩ := halts
  refine ⟨fuel, fun after exhausted => ?_⟩
  simp only [apart_apply] at exhausted
  match outcome : attempt fuel { situation with stream := view situation.stream } with
  | .ok answer middle =>
    rw [outcome] at exhausted
    cases exhausted
  | .error stop middle =>
    rw [outcome] at exhausted
    cases exhausted
    exact finished middle outcome

end Attempt

namespace Run

open Attempt

variable {attempt : Nat → Run} {situation : Situation} {rule : Rule}

theorem finishes_noMatch : Finishes noMatch := finishes_pure _

theorem finishes_here : Finishes (here rule) :=
  finishes_stream.bind fun _ => (finishes_ofResult _).bind fun _ => finishes_pure _

theorem finishes_hereIf (condition : Bool) : Finishes (hereIf condition rule) := by
  cases condition
  · exact finishes_noMatch
  · exact finishes_here

theorem finishes_since (start : Nat) (tokens : List Token) : Finishes (since start tokens rule) :=
  finishes_stream.bind fun _ => (finishes_ofResult _).bind fun _ => finishes_pure _

theorem finishes_arrive (kind : Text) (found : Match) : Finishes (arrive kind found) := by
  refine finishes_stream.bind fun stream => ?_
  split
  · exact (finishes_ofResult _).bind fun _ => (finishes_goTo _).bind fun _ => finishes_pure _
  · exact fun _ _ => nofun

theorem finishes_ofTest (test : Token → Bool) : Finishes (ofTest test rule) := by
  refine finishes_stream.bind fun stream => ?_
  split
  · refine finishes_read.bind fun token => ?_
    split
    · exact finishes_since _ _
    · exact finishes_noMatch
  · exact finishes_noMatch

theorem finishes_tokenStep : Finishes tokenStep := finishes_read.bind fun _ => finishes_pure _

theorem finishes_readValues (expected : List Token) : Finishes (readValues expected) := by
  induction expected with
  | nil => exact finishes_pure _
  | cons wanted rest ih =>
    refine finishes_stream.bind fun stream => ?_
    cases stream.current? with
    | none => exact finishes_pure _
    | some next =>
      dsimp only
      split
      · exact finishes_read.bind fun _ => ih.bind fun _ => finishes_pure _
      · exact finishes_pure _

theorem finishes_sameValues (expected : List Token) : Finishes (sameValues expected rule) := by
  refine finishes_stream.bind fun stream => (finishes_readValues expected).bind fun tokens => ?_
  cases tokens with
  | none => exact finishes_noMatch
  | some tokens => exact finishes_since _ _

theorem halts_settle (kind : Text) (grows : Grows attempt) (halts : Halts attempt situation) :
    Halts (fun fuel => settle kind (attempt fuel)) situation := by
  refine Halts.bind_finishes (Halts.apart halts) (grows.apart id) fun found => ?_
  cases found with
  | none => exact finishes_noMatch
  | some found => exact finishes_arrive kind found

theorem halts_delegate (grows : Grows attempt) (halts : Halts attempt situation) :
    Halts (fun fuel => delegate (attempt fuel) rule) situation := by
  refine halts_stream_bind (halts.bind_finishes grows fun found => ?_)
  cases found with
  | none => exact finishes_noMatch
  | some found => exact (finishes_ofResult _).bind fun _ => finishes_pure _

theorem halts_succeeds {view : TokenStream → TokenStream} (grows : Grows attempt)
    (halts : Halts attempt { situation with stream := view situation.stream }) :
    Halts (fun fuel => succeeds view (attempt fuel)) situation :=
  (Halts.apart halts).bind_finishes (grows.apart view) fun _ => finishes_pure _

end Run

end TokenGrammar
