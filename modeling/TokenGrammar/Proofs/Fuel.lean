import TokenGrammar.Proofs.Outcome

namespace TokenGrammar

namespace Attempt

variable {α β : Type}

/-- One attempt approximates another when it comes to the same wherever its fuel does not run out. -/
def Approximates (less more : Attempt α) : Prop :=
  ∀ situation, (∃ after, less situation = .error .exhausted after) ∨ less situation = more situation

namespace Approximates

theorem refl (attempt : Attempt α) : attempt.Approximates attempt := fun _ => .inr rfl

theorem bind {less more : Attempt α} {next next' : α → Attempt β} (first : less.Approximates more)
    (second : ∀ answer, (next answer).Approximates (next' answer)) :
    (less >>= next).Approximates (more >>= next') := by
  intro situation
  rw [Stateful.bind_apply, Stateful.bind_apply]
  rcases first situation with ⟨after, exhausted⟩ | same
  · exact .inl ⟨after, by rw [exhausted]⟩
  · rw [same]
    cases more situation with
    | ok answer after => exact second answer after
    | error stop after => exact .inr rfl

theorem apart {less more : Attempt α} (view : TokenStream → TokenStream) (inner : less.Approximates more) :
    (Attempt.apart view less).Approximates (Attempt.apart view more) := by
  intro situation
  rw [apart_apply, apart_apply]
  rcases inner { situation with stream := view situation.stream } with ⟨after, exhausted⟩ | same
  · exact .inl ⟨{ after with stream := situation.stream }, by rw [exhausted]⟩
  · exact .inr (by rw [same])

theorem exhaust (attempt : Attempt α) : Attempt.exhaust.Approximates attempt := fun situation => .inl ⟨situation, rfl⟩

theorem eq_ok {less more : Attempt α} {situation after : Situation} {answer : α} (approximates : less.Approximates more)
    (answers : less situation = .ok answer after) : more situation = .ok answer after := by
  rcases approximates situation with ⟨_, exhausted⟩ | same
  · rw [answers] at exhausted
    cases exhausted
  · rw [← same, answers]

end Approximates

/-- A family of attempts grows when each one approximates those with more fuel. -/
def Grows (attempt : Nat → Attempt α) : Prop :=
  ∀ ⦃fuel fuel'⦄, fuel ≤ fuel' → (attempt fuel).Approximates (attempt fuel')

/-- A family of attempts gives an answer when one of them comes to it. -/
def Gives (attempt : Nat → Attempt α) (situation : Situation) (answer : α) (after : Situation) : Prop :=
  ∃ fuel, attempt fuel situation = .ok answer after

variable {attempt : Nat → Attempt α} {next : Nat → α → Attempt β} {situation after after' : Situation}
  {answer answer' : α}

theorem Grows.eq_of_le (grows : Grows attempt) {fuel fuel' : Nat} (answers : attempt fuel situation = .ok answer after)
    (enough : fuel ≤ fuel') : attempt fuel' situation = .ok answer after :=
  (grows enough).eq_ok answers

/-- What a growing family gives is unique. -/
theorem Grows.unique (grows : Grows attempt) (first : Gives attempt situation answer after)
    (second : Gives attempt situation answer' after') : answer = answer' ∧ after = after' := by
  obtain ⟨fuel, first⟩ := first
  obtain ⟨fuel', second⟩ := second
  have first := grows.eq_of_le first (Nat.le_max_left fuel fuel')
  have second := grows.eq_of_le second (Nat.le_max_right fuel fuel')
  rw [first] at second
  cases second
  exact ⟨rfl, rfl⟩

namespace Grows

theorem const (attempt : Attempt α) : Grows fun _ => attempt := fun _ _ _ => .refl attempt

theorem bind (grows : Grows attempt) (grow : ∀ answer, Grows fun fuel => next fuel answer) :
    Grows fun fuel => attempt fuel >>= next fuel :=
  fun _ _ enough => (grows enough).bind fun answer => grow answer enough

theorem apart (view : TokenStream → TokenStream) (grows : Grows attempt) :
    Grows fun fuel => Attempt.apart view (attempt fuel) :=
  fun _ _ enough => (grows enough).apart view

end Grows

theorem gives_const_iff {attempt : Attempt α} :
    Gives (fun _ => attempt) situation answer after ↔ attempt situation = .ok answer after :=
  ⟨fun ⟨_, answers⟩ => answers, fun answers => ⟨0, answers⟩⟩

theorem gives_pure_iff {result : α} :
    Gives (fun _ => pure result) situation answer after ↔ answer = result ∧ after = situation := by
  rw [gives_const_iff]
  constructor
  · intro answers
    cases answers
    exact ⟨rfl, rfl⟩
  · intro same
    rw [same.1, same.2]
    rfl

/-- A condition that every attempt of a family meets holds of what the family gives. -/
theorem Gives.meets {condition : α → Situation → Prop} (given : Gives attempt situation answer after)
    (meets : ∀ fuel, Meets (attempt fuel situation) condition) : condition answer after := by
  obtain ⟨fuel, answers⟩ := given
  have met := meets fuel
  rw [answers] at met
  exact met

/-- One after the other, growing families give what they give by themselves. -/
theorem gives_bind_iff {result : β} (grows : Grows attempt) (grow : ∀ answer, Grows fun fuel => next fuel answer) :
    Gives (fun fuel => attempt fuel >>= next fuel) situation result after ↔
      ∃ answer middle, Gives attempt situation answer middle ∧
        Gives (fun fuel => next fuel answer) middle result after := by
  constructor
  · intro given
    obtain ⟨fuel, answers⟩ := given
    simp only [Stateful.bind_apply] at answers
    cases outcome : attempt fuel situation with
    | error stop middle =>
      rw [outcome] at answers
      cases answers
    | ok answer middle =>
      rw [outcome] at answers
      exact ⟨answer, middle, ⟨fuel, outcome⟩, ⟨fuel, answers⟩⟩
  · intro given
    obtain ⟨answer, middle, ⟨fuel, first⟩, ⟨fuel', second⟩⟩ := given
    refine ⟨max fuel fuel', ?_⟩
    simp only [Stateful.bind_apply, grows.eq_of_le first (Nat.le_max_left fuel fuel')]
    exact (grow answer).eq_of_le second (Nat.le_max_right fuel fuel')

theorem gives_bind_const_iff {next : α → Attempt β} {result : β} (grows : Grows attempt) :
    Gives (fun fuel => attempt fuel >>= next) situation result after ↔
      ∃ answer middle, Gives attempt situation answer middle ∧ next answer middle = .ok result after := by
  rw [gives_bind_iff grows fun answer => Grows.const (next answer)]
  simp only [gives_const_iff]

/-- A growing family grows with one unit of fuel more. -/
theorem Grows.succ (grows : Grows attempt) : Grows fun fuel => attempt (fuel + 1) := fun _ _ enough =>
  grows (Nat.succ_le_succ enough)

/-- What a family gives with one unit of fuel more it gives by itself. -/
theorem Grows.gives_succ_iff (grows : Grows attempt) :
    Gives (fun fuel => attempt (fuel + 1)) situation answer after ↔ Gives attempt situation answer after := by
  constructor
  · intro given
    obtain ⟨fuel, answers⟩ := given
    exact ⟨fuel + 1, answers⟩
  · intro given
    obtain ⟨fuel, answers⟩ := given
    exact ⟨fuel, grows.eq_of_le answers (Nat.le_succ fuel)⟩

/-- Apart, a family gives what it gives on its own view of the stream, which is put back. -/
theorem gives_apart_iff {view : TokenStream → TokenStream} :
    Gives (fun fuel => apart view (attempt fuel)) situation answer after ↔
      ∃ middle, Gives attempt { situation with stream := view situation.stream } answer middle ∧
        after = { middle with stream := situation.stream } := by
  constructor
  · intro given
    obtain ⟨fuel, answers⟩ := given
    simp only [apart_apply] at answers
    cases outcome : attempt fuel { situation with stream := view situation.stream } with
    | error stop middle =>
      rw [outcome] at answers
      cases answers
    | ok answer middle =>
      rw [outcome] at answers
      cases answers
      exact ⟨middle, ⟨fuel, outcome⟩, rfl⟩
  · intro given
    obtain ⟨middle, ⟨fuel, answers⟩, rfl⟩ := given
    exact ⟨fuel, by simp only [apart_apply, answers]⟩

end Attempt

namespace Run

open Attempt (Approximates)

variable {less more : Run} {each each' : Rule → Run} {rule : Rule}

theorem settle_approximates (kind : Text) (body : less.Approximates more) :
    (settle kind less).Approximates (settle kind more) :=
  (body.apart id).bind fun _ => .refl _

theorem delegate_approximates (inner : less.Approximates more) :
    (delegate less rule).Approximates (delegate more rule) :=
  .bind (.refl _) fun _ => inner.bind fun _ => .refl _

theorem succeeds_approximates (view : TokenStream → TokenStream) (inner : less.Approximates more) :
    (succeeds view less).Approximates (succeeds view more) :=
  (inner.apart view).bind fun _ => .refl _

theorem inTurn_approximates (all : ∀ member, (each member).Approximates (each' member)) (rules : List Rule) :
    (inTurn each rules).Approximates (inTurn each' rules) := by
  induction rules with
  | nil => exact .refl _
  | cons first rest ih =>
    apply (all first).bind
    intro found
    cases found with
    | none => exact .refl _
    | some found => exact ih.bind fun _ => .refl _

theorem firstOf_approximates (all : ∀ member, (each member).Approximates (each' member)) (rules : List Rule) :
    (firstOf each rules).Approximates (firstOf each' rules) := by
  induction rules with
  | nil => exact .refl _
  | cons first rest ih =>
    apply ((all first).apart id).bind
    intro found
    cases found with
    | none => exact ih
    | some found => exact .refl _

theorem farthestOf_approximates (all : ∀ member, (each member).Approximates (each' member)) (rules : List Rule)
    (farthest : Option Match) :
    (farthestOf each farthest rules).Approximates (farthestOf each' farthest rules) := by
  induction rules generalizing farthest with
  | nil => exact .refl _
  | cons first rest ih =>
    apply ((all first).apart id).bind
    intro found
    cases found with
    | none => exact .refl _
    | some found => exact ih _

/-- More repetitions may be tried with more fuel. -/
theorem repeating_approximates (inner : less.Approximates more) {least : Nat} {limit : Option Nat}
    {fuel fuel' : Nat} (enough : fuel ≤ fuel') (count : Nat) :
    (repeating less least limit fuel count).Approximates (repeating more least limit fuel' count) := by
  induction fuel generalizing fuel' count with
  | zero => exact .exhaust _
  | succ fuel ih =>
    obtain ⟨fuel', rfl⟩ := Nat.exists_eq_add_of_le' (Nat.zero_lt_of_lt enough)
    rw [repeating, repeating]
    split
    · exact .refl _
    · apply inner.bind
      intro found
      cases found with
      | none => exact .refl _
      | some found =>
        dsimp only
        split
        · exact .refl _
        · exact (ih (Nat.le_of_succ_le_succ enough) (count + 1)).bind fun _ => .refl _

theorem bodyStep_approximates (inner : less.Approximates more) : (bodyStep less).Approximates (bodyStep more) :=
  inner.bind fun _ => .refl _

theorem untilClosed_approximates {step step' : Attempt (Option (List Token))} (closing : less.Approximates more)
    (steps : step.Approximates step') {fuel fuel' : Nat} (enough : fuel ≤ fuel') :
    (untilClosed less step fuel).Approximates (untilClosed more step' fuel') := by
  induction fuel generalizing fuel' with
  | zero => exact .exhaust _
  | succ fuel ih =>
    obtain ⟨fuel', rfl⟩ := Nat.exists_eq_add_of_le' (Nat.zero_lt_of_lt enough)
    apply closing.bind
    intro found
    cases found with
    | some found => exact .refl _
    | none =>
      refine .bind (.refl _) fun stream => ?_
      split
      · apply steps.bind
        intro tokens
        cases tokens with
        | none => exact .refl _
        | some tokens => exact (ih (Nat.le_of_succ_le_succ enough)).bind fun _ => .refl _
      · exact .refl _

theorem bounded_approximates {opening opening' : Run} {step step' : Attempt (Option (List Token))}
    (opens : opening.Approximates opening') (closing : less.Approximates more) (steps : step.Approximates step')
    {fuel fuel' : Nat} (enough : fuel ≤ fuel') :
    (bounded opening less step fuel rule).Approximates (bounded opening' more step' fuel' rule) := by
  refine .bind (.refl _) fun stream => opens.bind fun found => ?_
  cases found with
  | none => exact .refl _
  | some found => exact (untilClosed_approximates closing steps enough).bind fun _ => .refl _

theorem insideGroup_approximates (inner : less.Approximates more) :
    (insideGroup less rule).Approximates (insideGroup more rule) := by
  refine .bind (.refl _) fun stream => .bind (.refl _) fun stream' => ?_
  cases stream'.current? with
  | none => exact .refl _
  | some token =>
    dsimp only
    cases token.unwrap.members? with
    | none => exact .refl _
    | some members => exact (succeeds_approximates _ inner).bind fun _ => .refl _

end Run

namespace Rule

open Run
open Attempt (Approximates)

variable {world : World} {each each' : Rule → Run} {rule : Rule}

theorem followReference_approximates (all : ∀ target, (each target).Approximates (each' target)) (key : Text)
    (kind : ReferenceKind) :
    (followReference world each key kind rule).Approximates (followReference world each' key kind rule) := by
  rw [followReference, followReference, followReferenceTelling, followReferenceTelling]
  cases if kind = .tokens then none else world.bindings.rule? key with
  | some target => exact delegate_approximates (all target)
  | none =>
    refine .bind (.refl _) fun captures => ?_
    cases if kind = .dynamic then world.bindings.resolve? key captures else none with
    | none => exact .refl _
    | some binding =>
      cases binding with
      | rule target => exact delegate_approximates (all target)
      | tokens expected => exact .refl _

/-- The body of a rule approximates itself with more fuel, if the rules that it runs do. -/
theorem body_approximates (all : ∀ target, (each target).Approximates (each' target)) {fuel fuel' : Nat}
    (enough : fuel ≤ fuel') : (rule.body world fuel each).Approximates (rule.body world fuel' each') := by
  cases rule with
  | always | never | matcher | anchor | external => exact .refl _
  | sequence rules => exact .bind (.refl _) fun _ => (inTurn_approximates all rules).bind fun _ => .refl _
  | anyOf alternatives => exact firstOf_approximates all alternatives
  | allOf rules => exact farthestOf_approximates all rules none
  | optional inner negated => exact .bind (.refl _) fun _ => (all _).bind fun _ => .refl _
  | repeated inner range negated =>
    exact .bind (.refl _) fun _ => (repeating_approximates (all inner) enough 0).bind fun _ => .refl _
  | lookaround direction inner negative => exact (succeeds_approximates _ (all inner)).bind fun _ => .refl _
  | boundary opening closing => exact bounded_approximates (all opening) (all closing) (.refl _) enough
  | filledBoundary opening inner closing =>
    exact bounded_approximates (all opening) (all closing) (bodyStep_approximates (all inner)) enough
  | named name =>
    rw [body, body, followNameTelling, followNameTelling]
    cases world.bindings.rule? name with
    | none => exact .refl _
    | some target => exact delegate_approximates (all target)
  | selfReferring cell | lazy cell =>
    rw [body, body]
    cases world.store.content? cell with
    | none => exact .refl _
    | some target => exact delegate_approximates (all target)
  | group inner => exact insideGroup_approximates (all inner)
  | capture key inner => exact (delegate_approximates (all inner)).bind fun _ => .refl _
  | reference key kind => exact followReference_approximates all key kind
  | not inner =>
    refine .bind (.refl _) fun stream => ?_
    split
    · exact (succeeds_approximates id (all inner)).bind fun _ => .refl _
    · exact .refl _

/-- A run comes to the same with more fuel, unless its fuel runs out. -/
theorem run_approximates {fuel fuel' : Nat} (enough : fuel ≤ fuel') :
    (rule.run world fuel).Approximates (rule.run world fuel') := by
  induction fuel generalizing fuel' rule with
  | zero => exact .exhaust _
  | succ fuel ih =>
    obtain ⟨fuel', rfl⟩ := Nat.exists_eq_add_of_le' (Nat.zero_lt_of_lt enough)
    have enough := Nat.le_of_succ_le_succ enough
    have bodies : (rule.body world fuel (run world fuel)).Approximates (rule.body world fuel' (run world fuel')) :=
      body_approximates (fun _ => ih enough) enough
    cases rule with
    | external number => exact .refl _
    | _ => exact settle_approximates _ bodies

/-- A rule yields an answer when it comes to it with some fuel. -/
def Yields (world : World) (rule : Rule) (situation : Situation) (found : Option Match) (after : Situation) : Prop :=
  ∃ fuel, rule.run world fuel situation = .ok found after

/-- A rule terminates from a situation when some fuel does not run out. -/
def Terminates (world : World) (rule : Rule) (situation : Situation) : Prop :=
  ∃ fuel, ∀ after, rule.run world fuel situation ≠ .error .exhausted after

variable {situation after after' : Situation} {found found' : Option Match}

theorem run_grows : Attempt.Grows fun fuel => rule.run world fuel := fun _ _ enough => run_approximates enough

/-- The answer of a rule to a caller is what the rule yields. -/
theorem exists_yields_of_answer {fuel : Nat} {stream : TokenStream} {captures : Captures}
    (answers : (rule.answer world fuel stream captures).result = .ok found) :
    ∃ after, rule.Yields world { stream, memory := { captures } } found after := by
  unfold answer at answers
  split at answers
  · rename_i outcome
    cases answers
    exact ⟨_, fuel, outcome⟩
  · cases answers

/-- A rule whose answer takes a number of tokens yields a match that does. -/
theorem exists_yields_of_count (world : World) (rule : Rule) (fuel count : Nat) (stream : TokenStream)
    (computed : (rule.answer world fuel stream {}).result.toOption.map (Option.map fun found => found.tokens.length) =
      some (some count)) :
    ∃ found after, rule.Yields world { stream, memory := {} } (some found) after ∧ found.tokens.length = count := by
  match outcome : (rule.answer world fuel stream {}).result with
  | .ok (some found) =>
    obtain ⟨after, yields⟩ := exists_yields_of_answer outcome
    rw [outcome] at computed
    exact ⟨found, after, yields, by simpa [Except.toOption] using computed⟩
  | .ok none | .error stop => simp [outcome, Except.toOption] at computed

/-- What a rule yields is unique. -/
theorem Yields.unique (first : rule.Yields world situation found after)
    (second : rule.Yields world situation found' after') : found = found' ∧ after = after' :=
  run_grows.unique first second

end Rule

end TokenGrammar
