import TokenGrammar.Proofs.Origins

namespace TokenGrammar

/-- The same surroundings, or ones with other resolvers. -/
def Surroundings.beside {ι : Type} (around : Surroundings) (other : Text → Attempt (Option DynamicBinding)) (i : Option ι) :
    Surroundings :=
  { around with ask := fun name => match i with
      | none => other name
      | some _ => around.ask name }

@[simp] theorem Surroundings.beside_store {ι : Type} (around : Surroundings)
    (other : Text → Attempt (Option DynamicBinding)) (i : Option ι) : (around.beside other i).store = around.store :=
  rfl

namespace Origins

open Attempt (Stops stopAt)

variable {around : Surroundings} {other : Text → Attempt (Option DynamicBinding)} {stop : Stop} {α β : Type}
  {situation : Situation}

/-- Attempts that are known, with an attempt among other resolvers beside them. That one comes to the same where the
other resolvers do the same as those that are asked on the way, unless the attempts stop. -/
structure Asking (around : Surroundings) (other : Text → Attempt (Option DynamicBinding)) (stop : Stop) (α : Type)
    (attempt : Option (Option (Step × Situation)) → Attempt α) : Prop where
  known : Known around stop α fun marked => attempt (some marked)
  same : ∀ situation, ¬ (attempt (some none)).Stops stop situation →
    (∀ name tried, (attempt (some (some (.ask name, tried)))).Stops stop situation →
      other name tried = around.ask name tried) →
    attempt none situation = attempt (some none) situation

theorem Asking.bind {attempt : Option (Option (Step × Situation)) → Attempt α}
    {next : Option (Option (Step × Situation)) → α → Attempt β} (first : Asking around other stop α attempt)
    (second : ∀ answer, Asking around other stop β fun marked => next marked answer) :
    Asking around other stop β fun marked => attempt marked >>= next marked where
  known := first.known.bind fun answer => (second answer).known
  same := by
    intro situation silent agree
    rw [Stateful.bind_apply, Stateful.bind_apply,
      first.same situation (fun stops => silent (stops.bind _)) fun name tried stops => agree name tried (stops.bind _)]
    cases answers : attempt (some none) situation with
    | error reason stopped => rfl
    | ok answer middle =>
      have passed (marked : Option (Step × Situation)) (stops : (next (some marked) answer).Stops stop middle) :
          (attempt (some marked) >>= next (some marked)).Stops stop situation := by
        let rest (marked : Option (Step × Situation)) := next (some marked)
        have stops : (rest marked answer).Stops stop middle := stops
        exact (stops_bind_iff first.known answers marked).mpr (.inr stops)
      exact (second answer).same middle (fun stops => silent (passed none stops))
        fun name tried stops => agree name tried (passed _ stops)

theorem Asking.apart {attempt : Option (Option (Step × Situation)) → Attempt α} (view : TokenStream → TokenStream)
    (inner : Asking around other stop α attempt) :
    Asking around other stop α fun marked => Attempt.apart view (attempt marked) where
  known := inner.known.apart view
  same := by
    intro situation silent agree
    rw [Attempt.apart_apply, Attempt.apart_apply,
      inner.same _ (fun stops => silent (Attempt.stops_apart_iff.mpr stops)) fun name tried stops =>
        agree name tried (Attempt.stops_apart_iff.mpr stops)]

/-- What is known and asks nobody is the same among other resolvers. -/
theorem Known.asking {attempt : Option (Step × Situation) → Attempt α} (known : Known around stop α attempt) :
    Asking around other stop α fun i => attempt i.join :=
  ⟨known, fun _ _ _ => rfl⟩

/-- Only resolvers ask. -/
theorem asking_composable (around : Surroundings) (other : Text → Attempt (Option DynamicBinding)) (stop : Stop) :
    Composable (Asking around other stop) where
  pure _ := ((known_composable around stop).pure _).asking
  fail _ := ((known_composable around stop).fail _).asking
  exhaust := (known_composable around stop).exhaust.asking
  stream := (known_composable around stop).stream.asking
  goTo _ := ((known_composable around stop).goTo _).asking
  captures := (known_composable around stop).captures.asking
  bind first second := first.bind second
  apart view inner := inner.apart view

/-- What a step does is the same among other resolvers if it is for what the step is known to do. -/
theorem asking_of_inside {attempt : Option (Option (Step × Situation)) → Attempt α} {step : Step}
    (known : Known around stop α fun marked => Attempt.stopAt stop marked step (attempt (some marked)))
    (same : ∀ situation, ¬ (attempt (some none)).Stops stop situation →
      (∀ name tried, (attempt (some (some (.ask name, tried)))).Stops stop situation →
        other name tried = around.ask name tried) →
      attempt none situation = attempt (some none) situation) :
    Asking around other stop α fun i => Attempt.stopAt stop i.join step (attempt i) where
  known := known
  same := by
    intro situation silent agree
    simp only [Option.join_none, Option.join_some, Attempt.stopAt_none] at silent ⊢
    exact same situation silent fun name tried stops => agree name tried (Attempt.stops_stopAt_iff.mpr (.inr stops))

theorem Asking.stopAt {attempt : Option (Option (Step × Situation)) → Attempt α} {step : Step}
    (asking : Asking around other stop α attempt) :
    Asking around other stop α fun i => Attempt.stopAt stop i.join step (attempt i) :=
  asking_of_inside asking.known.stopAt asking.same

/-- A resolver is asked, and another one beside it. -/
theorem asking_ask (around : Surroundings) (other : Text → Attempt (Option DynamicBinding)) (stop : Stop)
    (name : Text) :
    Asking around other stop _ fun i => ((around.beside other i).stopping stop i.join).ask name where
  known := known_ask around stop name
  same := by
    intro situation _ agree
    simp only [Surroundings.stopping, Option.join_none, Option.join_some, Attempt.stopAt_none]
    exact agree name situation ⟨situation, Attempt.stopAt_self ..⟩

/-- A dynamic reference asks the resolver of its key where no rule is bound to the key. -/
theorem stops_reference {key : Text} (unbound : around.rule? key = none) (situation : Situation) (fuel : Nat) :
    ((Rule.reference key .dynamic).runStopping around stop (some (.ask key, situation)) (fuel + 1)).Stops stop
      situation := by
  let around' := around.stopping stop (some (.ask key, situation))
  have asked : (around'.askFor .dynamic key).Stops stop situation := ⟨situation, Attempt.stopAt_self ..⟩
  have follows : (Rule.followReferenceIn around' (Rule.runStopping around stop (some (.ask key, situation)) fuel) key
      .dynamic (.reference key .dynamic)).Stops stop situation := by
    have unbound : around'.rule? key = none := unbound
    simp only [Rule.followReferenceIn, reduceCtorEq, if_false, unbound]
    exact asked.bind _
  refine Attempt.stops_stopAt_iff.mpr (.inr ?_)
  exact Stops.bind (Attempt.stops_apart_iff.mpr follows) _

/-- A run asks resolvers in the situations in which it is known to ask them, and in no others. -/
theorem asking_run (other : Text → Attempt (Option DynamicBinding))
    (tells : ∀ notice, Known around stop _ fun _ => around.tell notice) (rule : Rule) (fuel : Nat) :
    Asking around other stop _ fun i => rule.runStopping (around.beside other i) stop i.join fuel := by
  have composable := asking_composable around other stop
  induction fuel generalizing rule with
  | zero => exact composable.exhaust
  | succ fuel ih =>
    cases rule with
    | external number => exact asking_of_inside (known_external number fuel) fun _ _ _ => rfl
    | capture key inner =>
      refine asking_of_inside (known_capture (known_run tells inner fuel)) fun situation silent agree => ?_
      refine step_capture_congr ?_
      exact (composable.delegate (ih inner) (.capture key inner)).same situation
        (fun stops => silent (stops_capture stops)) fun name tried stops => agree name tried (stops_capture stops)
    | named name => exact (composable.settle _ (composable.followNameIn (tells _).asking ih)).stopAt
    | reference key kind =>
      exact (composable.settle _
        (composable.followReferenceIn (asking_ask around other stop key) (tells _).asking ih)).stopAt
    | _ =>
      simp only [Rule.runStopping, Rule.stepIn, Surroundings.stopping_store, Surroundings.beside_store]
      refine Asking.stopAt (composable.settle _ ?_)
      refine composable.body_of_not_looksUp fuel ?_ ?_ fun inner _ => ih inner
      · intro key inner same
        cases same
      · rfl

end Origins

end TokenGrammar
