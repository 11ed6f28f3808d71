import TokenGrammar.Proofs.Surroundings

namespace TokenGrammar

/-- What happens on the way of a pass: a rule is run, the resolver of a name is asked, or an action is applied. -/
inductive Step where
  | run (rule : Rule)
  | ask (name : Text)
  | act (bound : BoundRule) (found : Match)

open Classical in
/-- Takes a step by an attempt, but stops for a given reason if the step is marked in this situation. -/
noncomputable def Attempt.stopAt {α : Type} (stop : Stop) (marked : Option (Step × Situation)) (step : Step)
    (attempt : Attempt α) : Attempt α := fun situation =>
  if marked = some (step, situation) then .error stop situation else attempt situation

noncomputable def Surroundings.stopping (around : Surroundings) (stop : Stop) (marked : Option (Step × Situation)) :
    Surroundings :=
  { around with ask := fun name => Attempt.stopAt stop marked (.ask name) (around.ask name) }

/-- Runs a rule with so much fuel, but stops for a given reason where the marked step would be taken in the marked
situation. The reason may be any; so the steps on the way of a run are known even when the run stops half-way or would
never end. -/
noncomputable def Rule.runStopping (around : Surroundings) (stop : Stop) (marked : Option (Step × Situation)) :
    Nat → Rule → Run
  | 0, _ => Attempt.exhaust
  | fuel + 1, rule => Attempt.stopAt stop marked (.run rule)
      (rule.stepIn (around.stopping stop marked) fuel (runStopping around stop marked fuel))

/-- A capture rule of a key keeps the tokens that it matches. A rule that a caller supplied, a resolver and an action keep
what they leave under the key that was not there before. -/
def Step.KeepsCapture (around : Surroundings) (tried : Situation) (key : Text) (tokens : List Token) : Step → Prop
  | .run (.capture own inner) => own = key ∧
      ∃ fuel found after, (Rule.capture own inner).runIn around fuel tried = .ok (some found) after ∧
        found.tokens = tokens
  | .run (.external number) => tried.memory.captures.find? key ≠ some tokens ∧
      ∃ supplied, around.store.external? number = some supplied ∧
        (supplied.behave tried.stream tried.memory.captures).captures.find? key = some tokens
  | .run _ => False
  | .ask name => tried.memory.captures.find? key ≠ some tokens ∧
      (Outcome.left (around.ask name tried)).memory.captures.find? key = some tokens
  | .act bound found => tried.memory.captures.find? key ≠ some tokens ∧
      (Outcome.left (bound.action.apply around.store found tried)).memory.captures.find? key = some tokens

namespace Attempt

/-- Whether an attempt stops for a reason. -/
def Stops {α : Type} (stop : Stop) (attempt : Attempt α) (situation : Situation) : Prop :=
  ∃ stopped, attempt situation = .error stop stopped

variable {α β : Type} {stop : Stop} {marked : Option (Step × Situation)} {step : Step} {situation after : Situation}
  {attempt : Attempt α} {answer : α}

/-- An attempt stops for one reason at most, so that there is one for which it does not stop. -/
theorem exists_not_stops (attempt : Attempt α) (situation : Situation) : ∃ stop, ¬ attempt.Stops stop situation := by
  by_cases exhausted : attempt.Stops .exhausted situation
  · refine ⟨.fault .noTypes, ?_⟩
    rintro ⟨stopped, stops⟩
    obtain ⟨stopped', stops'⟩ := exhausted
    cases stops.symm.trans stops'
  · exact ⟨.exhausted, exhausted⟩

theorem Stops.bind (stops : attempt.Stops stop situation) (next : α → Attempt β) :
    (attempt >>= next).Stops stop situation := by
  obtain ⟨stopped, stops⟩ := stops
  exact ⟨stopped, by rw [Stateful.bind_apply, stops]⟩

theorem stops_apart_iff {view : TokenStream → TokenStream} :
    (apart view attempt).Stops stop situation ↔
      attempt.Stops stop { situation with stream := view situation.stream } := by
  unfold Stops
  rw [apart_apply]
  cases attempt { situation with stream := view situation.stream } <;> simp

theorem stopAt_self (stop : Stop) (step : Step) (attempt : Attempt α) (situation : Situation) :
    stopAt stop (some (step, situation)) step attempt situation = .error stop situation :=
  if_pos rfl

theorem stopAt_other (other : marked ≠ some (step, situation)) :
    stopAt stop marked step attempt situation = attempt situation :=
  if_neg other

@[simp] theorem stopAt_none (stop : Stop) (step : Step) (attempt : Attempt α) :
    stopAt stop none step attempt = attempt :=
  funext fun _ => stopAt_other (Option.some_ne_none _).symm

/-- An attempt stops where its step is marked, and otherwise where it does by itself. -/
theorem stops_stopAt_iff : (stopAt stop marked step attempt).Stops stop situation ↔
    marked = some (step, situation) ∨ attempt.Stops stop situation := by
  by_cases hit : marked = some (step, situation)
  · rw [hit]
    exact iff_of_true ⟨situation, stopAt_self stop step attempt situation⟩ (.inl rfl)
  · unfold Stops
    rw [stopAt_other hit]
    simp [hit]

end Attempt

@[simp] theorem Surroundings.stopping_store (around : Surroundings) (stop : Stop) (marked : Option (Step × Situation)) :
    (around.stopping stop marked).store = around.store :=
  rfl

@[simp] theorem Surroundings.stopping_none (around : Surroundings) (stop : Stop) : around.stopping stop none = around := by
  simp [stopping]

namespace Rule

@[simp] theorem runStopping_none (around : Surroundings) (stop : Stop) (fuel : Nat) :
    Rule.runStopping around stop none fuel = Rule.runIn around fuel := by
  induction fuel with
  | zero => rfl
  | succ fuel ih =>
    funext rule
    rw [runStopping, ih, Attempt.stopAt_none, Surroundings.stopping_none, runIn]

end Rule

namespace Origins

open Attempt (Stops stopAt)

variable {around : Surroundings} {stop : Stop} {α β : Type} {situation middle after : Situation} {answer : α}

/-- Captures come from a situation and the attempts from it when each of them was there, or was kept by a step on the
way: the attempts stop when that is marked. -/
def ComeFrom (around : Surroundings) (stop : Stop) (attempt : Option (Step × Situation) → Attempt α)
    (situation : Situation) (captures : Captures) : Prop :=
  ∀ key tokens, captures.find? key = some tokens → situation.memory.captures.find? key = some tokens ∨
    ∃ step tried, (attempt (some (step, tried))).Stops stop situation ∧ step.KeepsCapture around tried key tokens

/-- Attempts that come to the same whatever is marked, unless they stop, and whose captures are known to come from
where they begin: those that they leave, and those that a step on their way finds. -/
structure Known (around : Surroundings) (stop : Stop) (α : Type) (attempt : Option (Step × Situation) → Attempt α) :
    Prop where
  stops_or_eq : ∀ marked situation,
    (attempt marked).Stops stop situation ∨ attempt marked situation = attempt none situation
  left : ∀ {situation answer after}, attempt none situation = .ok answer after →
    ComeFrom around stop attempt situation after.memory.captures
  found : ∀ {situation step tried}, ¬ (attempt none).Stops stop situation →
    (attempt (some (step, tried))).Stops stop situation → ComeFrom around stop attempt situation tried.memory.captures

theorem ComeFrom.refl (attempt : Option (Step × Situation) → Attempt α) (situation : Situation) :
    ComeFrom around stop attempt situation situation.memory.captures := fun _ _ kept => .inl kept

theorem ComeFrom.mono {attempt : Option (Step × Situation) → Attempt α} {wider : Option (Step × Situation) → Attempt β}
    {captures : Captures} (come : ComeFrom around stop attempt situation captures)
    (passed : ∀ marked, (attempt (some marked)).Stops stop situation → (wider (some marked)).Stops stop middle)
    (same : situation.memory = middle.memory) : ComeFrom around stop wider middle captures := by
  intro key tokens kept
  rcases come key tokens kept with before | ⟨step, tried, stops, keeps⟩
  · exact .inl (same ▸ before)
  · exact .inr ⟨step, tried, passed _ stops, keeps⟩

/-- What comes from where the first attempt arrives comes from where it began. -/
theorem ComeFrom.trans {attempt : Option (Step × Situation) → Attempt α}
    {next wider : Option (Step × Situation) → Attempt β} {captures : Captures}
    (left : ComeFrom around stop attempt situation middle.memory.captures)
    (come : ComeFrom around stop next middle captures)
    (first : ∀ marked, (attempt (some marked)).Stops stop situation → (wider (some marked)).Stops stop situation)
    (second : ∀ marked, (next (some marked)).Stops stop middle → (wider (some marked)).Stops stop situation) :
    ComeFrom around stop wider situation captures := by
  intro key tokens kept
  rcases come key tokens kept with before | ⟨step, tried, stops, keeps⟩
  · exact left.mono first rfl key tokens before
  · exact .inr ⟨step, tried, second _ stops, keeps⟩

/-- Attempts that run no rule and leave the captures alone. -/
theorem known_const {attempt : Attempt α}
    (stays : ∀ {situation answer after}, attempt situation = .ok answer after →
      after.memory.captures = situation.memory.captures) : Known around stop α fun _ => attempt where
  stops_or_eq _ _ := .inr rfl
  left answers := by
    rw [stays answers]
    exact .refl _ _
  found silent stops := absurd stops silent

section Bind

variable {attempt : Option (Step × Situation) → Attempt α} {next : Option (Step × Situation) → α → Attempt β}

/-- One after the other, attempts stop when one of the two does. -/
theorem stops_bind_iff (known : Known around stop α attempt) (answers : attempt none situation = .ok answer middle)
    (marked : Option (Step × Situation)) :
    (attempt marked >>= next marked).Stops stop situation ↔
      (attempt marked).Stops stop situation ∨ (next marked answer).Stops stop middle := by
  unfold Stops
  rw [Stateful.bind_apply]
  rcases known.stops_or_eq marked situation with ⟨stopped, stops⟩ | same
  · simp [stops]
  · simp [same, answers]

theorem Known.bind (first : Known around stop α attempt)
    (second : ∀ answer, Known around stop β fun marked => next marked answer) :
    Known around stop β fun marked => attempt marked >>= next marked where
  stops_or_eq marked situation := by
    rcases first.stops_or_eq marked situation with stops | same
    · exact .inl (stops.bind _)
    · rw [Stateful.bind_apply, Stateful.bind_apply, same]
      cases answers : attempt none situation with
      | error reason stopped => exact .inr rfl
      | ok answer middle =>
        rcases (second answer).stops_or_eq marked middle with stops | same'
        · exact .inl ((stops_bind_iff first answers marked).mpr (.inr stops))
        · exact .inr same'
  left := by
    intro situation result after answers
    obtain ⟨answer, middle, answers, answers'⟩ := Stateful.bind_eq_ok_iff.mp answers
    exact (first.left answers).trans ((second answer).left answers')
      (fun marked stops => (stops_bind_iff first answers _).mpr (.inl stops))
      (fun marked stops => (stops_bind_iff first answers _).mpr (.inr stops))
  found := by
    intro situation step tried silent stops
    have silent' : ¬ (attempt none).Stops stop situation := fun stops => silent (stops.bind _)
    cases answers : attempt none situation with
    | error reason stopped =>
      rcases first.stops_or_eq (some (step, tried)) situation with stops' | same
      · exact (first.found silent' stops').mono (fun _ stops => stops.bind _) rfl
      · -- Both come to the same, so that neither of them stops.
        unfold Stops at silent stops
        rw [Stateful.bind_apply, same, answers] at stops
        rw [Stateful.bind_apply, answers] at silent
        exact absurd stops silent
    | ok answer middle =>
      have passed (marked : Step × Situation) : (attempt (some marked) >>= next (some marked)).Stops stop situation ↔
          (attempt (some marked)).Stops stop situation ∨ (next (some marked) answer).Stops stop middle :=
        stops_bind_iff first answers (some marked)
      rcases (passed _).mp stops with stops | stops
      · exact (first.found silent' stops).mono (fun marked stops => (passed marked).mpr (.inl stops)) rfl
      · have silent : ¬ (next none answer).Stops stop middle := fun stops =>
          silent ((stops_bind_iff first answers none).mpr (.inr stops))
        exact (first.left answers).trans ((second answer).found silent stops)
          (fun marked stops => (passed marked).mpr (.inl stops)) (fun marked stops => (passed marked).mpr (.inr stops))

end Bind

theorem Known.apart {attempt : Option (Step × Situation) → Attempt α} (view : TokenStream → TokenStream)
    (inner : Known around stop α attempt) : Known around stop α fun marked => Attempt.apart view (attempt marked) where
  stops_or_eq marked situation := by
    rcases inner.stops_or_eq marked { situation with stream := view situation.stream } with stops | same
    · exact .inl (Attempt.stops_apart_iff.mpr stops)
    · right
      rw [Attempt.apart_apply, Attempt.apart_apply, same]
  left := by
    intro situation answer after answers
    rw [Attempt.apart_apply] at answers
    cases outcome : attempt none { situation with stream := view situation.stream } with
    | error reason stopped =>
      rw [outcome] at answers
      cases answers
    | ok answer' middle =>
      rw [outcome] at answers
      cases answers
      exact (inner.left outcome).mono (fun _ stops => Attempt.stops_apart_iff.mpr stops) rfl
  found := by
    intro situation step tried silent stops
    have silent := fun stops => silent (Attempt.stops_apart_iff.mpr stops)
    exact (inner.found silent (Attempt.stops_apart_iff.mp stops)).mono
      (fun _ stops => Attempt.stops_apart_iff.mpr stops) rfl

/-- Only capture rules and callers replace captures; so all else is known. -/
theorem known_composable (around : Surroundings) (stop : Stop) : Composable (Known around stop) where
  pure _ := known_const fun answers => by cases answers; rfl
  fail _ := known_const nofun
  exhaust := known_const nofun
  stream := known_const fun answers => by cases answers; rfl
  goTo _ := known_const fun answers => by cases answers; rfl
  captures := known_const fun answers => by cases answers; rfl
  bind first second := first.bind second
  apart view inner := inner.apart view

section Steps

variable {step : Step}

/-- A step is known when what it does is, except that the captures it leaves may come from the step itself. -/
theorem known_of_inside {attempt : Option (Step × Situation) → Attempt α}
    (stops_or_eq : ∀ marked situation,
      (attempt marked).Stops stop situation ∨ attempt marked situation = attempt none situation)
    (left : ∀ {situation answer after}, attempt none situation = .ok answer after →
      ComeFrom around stop (fun marked => stopAt stop marked step (attempt marked)) situation after.memory.captures)
    (found : ∀ {situation other tried}, ¬ (attempt none).Stops stop situation →
      (attempt (some (other, tried))).Stops stop situation →
        ComeFrom around stop attempt situation tried.memory.captures) :
    Known around stop _ fun marked => stopAt stop marked step (attempt marked) where
  stops_or_eq marked situation := by
    rw [Attempt.stops_stopAt_iff, Attempt.stopAt_none]
    by_cases hit : marked = some (step, situation)
    · exact .inl (.inl hit)
    · rw [Attempt.stopAt_other hit]
      exact (stops_or_eq marked situation).imp_left .inr
  left := by
    intro situation answer after answers
    rw [Attempt.stopAt_none] at answers
    exact left answers
  found := by
    intro situation other tried silent stops
    rw [Attempt.stopAt_none] at silent
    rcases Attempt.stops_stopAt_iff.mp stops with hit | stops
    · cases hit
      exact .refl _ _
    · exact (found silent stops).mono (fun _ stops => Attempt.stops_stopAt_iff.mpr (.inr stops)) rfl

theorem Known.stopAt {attempt : Option (Step × Situation) → Attempt α} (known : Known around stop α attempt) :
    Known around stop _ fun marked => Attempt.stopAt stop marked step (attempt marked) :=
  known_of_inside known.stops_or_eq
    (fun answers => (known.left answers).mono (fun _ stops => Attempt.stops_stopAt_iff.mpr (.inr stops)) rfl) known.found

/-- A step that takes no other one is known when it keeps what it leaves and was not there before. -/
theorem known_stopAt_const {attempt : Attempt α} (keeps : ∀ {situation answer after key tokens},
      attempt situation = .ok answer after → situation.memory.captures.find? key ≠ some tokens →
        after.memory.captures.find? key = some tokens → step.KeepsCapture around situation key tokens) :
    Known around stop _ fun marked => Attempt.stopAt stop marked step attempt := by
  refine known_of_inside (fun _ _ => .inr rfl) ?_ fun silent stops => absurd stops silent
  intro situation answer after answers key tokens kept
  by_cases before : situation.memory.captures.find? key = some tokens
  · exact .inl before
  · exact .inr ⟨step, situation, Attempt.stops_stopAt_iff.mpr (.inl rfl), keeps answers before kept⟩

/-- A resolver keeps what it leaves. -/
theorem known_ask (around : Surroundings) (stop : Stop) (name : Text) :
    Known around stop _ fun marked => (around.stopping stop marked).ask name :=
  known_stopAt_const fun answers absent kept => ⟨absent, by rw [answers]; exact kept⟩

/-- An action keeps what it leaves. -/
theorem known_act (around : Surroundings) (stop : Stop) (bound : BoundRule) (found : Match) :
    Known around stop _ fun marked =>
      Attempt.stopAt stop marked (.act bound found) (bound.action.apply around.store found) :=
  known_stopAt_const fun answers absent kept => ⟨absent, by rw [answers]; exact kept⟩

end Steps

section Runs

variable {world : World} {rule inner : Rule} {fuel : Nat} {key : Text} {kind : Text}

theorem eq_ok_of_arrive {found : Match} {answer : Option Match}
    (answers : Run.arrive kind found situation = .ok answer after) :
    answer = some found ∧ after.memory = situation.memory := by
  simp only [Run.arrive, Attempt.stream_bind_apply] at answers
  split at answers
  · cases moved : situation.stream.moveTo found.finish with
    | error fault =>
      rw [moved] at answers
      cases answers
    | ok place =>
      rw [moved] at answers
      cases answers
      exact ⟨rfl, rfl⟩
  · cases answers

/-- Where a run settles, it answers what its body answers and has the memory of its body. -/
theorem eq_ok_of_settle {body : Run} {answer : Option Match}
    (answers : Run.settle kind body situation = .ok answer after) :
    ∃ middle, body situation = .ok answer middle ∧ after.memory = middle.memory := by
  rw [Run.settle, Stateful.bind_apply, Attempt.apart_apply] at answers
  cases outcome : body { situation with stream := id situation.stream } with
  | error reason stopped =>
    rw [outcome] at answers
    cases answers
  | ok found middle =>
    rw [outcome] at answers
    cases found with
    | none =>
      cases answers
      exact ⟨middle, outcome, rfl⟩
    | some found =>
      obtain ⟨rfl, memory_eq⟩ := eq_ok_of_arrive answers
      exact ⟨middle, outcome, memory_eq⟩

/-- A capture rule leaves the captures of the rule inside of it, and what it matches under its key. -/
theorem captures_of_capture {each : Rule → Run} {answer : Option Match}
    (answers : (Rule.capture key inner).step world fuel each situation = .ok answer after) :
    ∃ middle, Run.delegate (each inner) (.capture key inner) situation = .ok answer middle ∧
      after.memory.captures = match answer with
        | none => middle.memory.captures
        | some found => middle.memory.captures.keep key found.tokens := by
  obtain ⟨behind, bodied, memory_eq⟩ := eq_ok_of_settle answers
  obtain ⟨found, middle, delegated, bodied⟩ := Stateful.bind_eq_ok_iff.mp bodied
  cases found with
  | none =>
    cases bodied
    exact ⟨_, delegated, congrArg Memory.captures memory_eq⟩
  | some found =>
    simp only [Attempt.captures_bind_apply] at bodied
    cases made : middle.memory.captures.capture key found.tokens with
    | error fault =>
      rw [made] at bodied
      cases bodied
    | ok kept =>
      rw [made] at bodied
      cases bodied
      obtain ⟨-, made⟩ := check_bind_eq_ok_iff.mp made
      cases made
      exact ⟨middle, delegated, congrArg Memory.captures memory_eq⟩

/-- A capture rule stops where the rule inside of it does. -/
theorem stops_capture {each : Rule → Run}
    (stops : (Run.delegate (each inner) (.capture key inner)).Stops stop situation) :
    ((Rule.capture key inner).step world fuel each).Stops stop situation := by
  have bodied : (Attempt.apart id ((Rule.capture key inner).body world fuel each)).Stops stop situation :=
    Attempt.stops_apart_iff.mpr (stops.bind _)
  exact bodied.bind _

/-- What a capture rule does is settled by what the rule inside of it does. -/
theorem step_capture_congr {each each' : Rule → Run}
    (same : Run.delegate (each inner) (.capture key inner) situation =
      Run.delegate (each' inner) (.capture key inner) situation) :
    (Rule.capture key inner).step world fuel each situation =
      (Rule.capture key inner).step world fuel each' situation := by
  simp only [Rule.step, Rule.body, Run.settle, Stateful.bind_apply, Attempt.apart_apply, id_eq, same]

/-- What the rule of a caller does in a step. -/
def callerStep (store : RuleStore) (number : Nat) : Run :=
  match store.external? number with
  | some supplied => Run.leaveToCaller supplied
  | none => Run.noMatch

/-- A rule that a caller supplied keeps what it leaves under a key that was not there before. -/
theorem known_external (number : Nat) (fuel : Nat) :
    Known around stop _ fun marked => (Rule.external number).runStopping around stop marked (fuel + 1) := by
  suffices known : Known around stop _ fun marked =>
      stopAt stop marked (.run (.external number)) (callerStep around.store number) from known
  refine known_stopAt_const ?_
  intro situation answer after key tokens answers absent kept
  refine ⟨absent, ?_⟩
  rw [callerStep] at answers
  cases supplied : around.store.external? number with
  | none =>
    rw [supplied] at answers
    cases answers
    exact absurd kept absent
  | some behaviour =>
    rw [supplied] at answers
    refine ⟨behaviour, rfl, ?_⟩
    simp only [Run.leaveToCaller] at answers
    split at answers
    · cases answers
      exact kept
    · cases answers

/-- A capture rule keeps the tokens that it matches. -/
theorem known_capture (inside : Known around stop _ fun marked => inner.runStopping around stop marked fuel) :
    Known around stop _ fun marked => (Rule.capture key inner).runStopping around stop marked (fuel + 1) := by
  have delegated := (known_composable around stop).delegate inside (.capture key inner)
  refine known_of_inside ?_ ?_ ?_
  · intro marked situation
    exact (delegated.stops_or_eq marked situation).imp stops_capture step_capture_congr
  · intro situation answer after answers
    obtain ⟨middle, ran, captures_eq⟩ := captures_of_capture answers
    have come : ComeFrom around stop (fun marked => (Rule.capture key inner).runStopping around stop marked (fuel + 1))
        situation middle.memory.captures :=
      (delegated.left ran).mono (fun _ stops => Attempt.stops_stopAt_iff.mpr (.inr (stops_capture stops))) rfl
    cases answer with
    | none => exact captures_eq ▸ come
    | some found =>
      intro other tokens kept
      rw [captures_eq] at kept
      by_cases same : other = key
      · subst same
        cases (Captures.find?_keep_self ..).symm.trans kept
        have runs : (Rule.capture other inner).runIn around (fuel + 1) situation = .ok (some found) after := by
          rw [← Rule.runStopping_none around stop, Rule.runStopping, Attempt.stopAt_none]
          exact answers
        exact .inr ⟨.run (.capture other inner), situation, Attempt.stops_stopAt_iff.mpr (.inl rfl), rfl, _, _, _, runs,
          rfl⟩
      · rw [Captures.find?_keep_other _ _ same] at kept
        exact come other tokens kept
  · intro situation target tried silent stops
    rcases delegated.stops_or_eq (some (target, tried)) situation with stops' | same
    · exact (delegated.found (fun stops => silent (stops_capture stops)) stops').mono
        (fun _ stops => stops_capture stops) rfl
    · obtain ⟨stopped, stops⟩ := stops
      exact absurd ⟨stopped, (step_capture_congr same).symm.trans stops⟩ silent

/-- Every run is known, whatever its rule, as long as what is told leaves the captures alone. -/
theorem known_run (tells : ∀ notice, Known around stop _ fun _ => around.tell notice) (rule : Rule) (fuel : Nat) :
    Known around stop _ fun marked => rule.runStopping around stop marked fuel := by
  have composable := known_composable around stop
  induction fuel generalizing rule with
  | zero => exact composable.exhaust
  | succ fuel ih =>
    -- Only a capture rule and a rule of a caller keep something, and only names and references look around.
    cases rule with
    | external number => exact known_external number fuel
    | capture key inner => exact known_capture (ih inner)
    | named name => exact (composable.settle _ (composable.followNameIn (tells _) ih)).stopAt
    | reference key kind =>
      exact (composable.settle _ (composable.followReferenceIn (known_ask around stop key) (tells _) ih)).stopAt
    | _ =>
      simp only [Rule.runStopping, Rule.stepIn, Surroundings.stopping_store]
      refine Known.stopAt (composable.settle _ ?_)
      refine composable.body_of_not_looksUp fuel ?_ ?_ fun inner _ => ih inner
      · intro key inner same
        cases same
      · rfl

end Runs

end Origins

end TokenGrammar
