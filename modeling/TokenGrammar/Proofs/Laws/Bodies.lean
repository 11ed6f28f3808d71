import TokenGrammar.Proofs.Safety

namespace TokenGrammar.Rule

open Run
open Attempt (Gives)

variable {world : World} {rule : Rule} {situation after : Situation} {found : Match}

/-- What the body of a rule does with so much fuel. -/
def bodyRun (world : World) (rule : Rule) (fuel : Nat) : Run := rule.body world fuel (run world fuel)

/-- The body of a rule is traced when the rule is no caller's own and its body answers only matches that span a
stretch from its place on. -/
structure Traced (world : World) (rule : Rule) : Prop where
  inside : ∀ number, rule ≠ .external number
  traces : ∀ fuel situation, Meets (rule.bodyRun world fuel situation) fun found _ => Traces situation.stream found

/-- The bodies of built-in rules are traced. -/
theorem BuiltIn.traced (builtIn : rule.BuiltIn world) : rule.Traced world where
  inside number same := by
    subst same
    exact builtIn.here
  traces fuel _ := body_traces fuel builtIn.here fun _ refers => run_sound (builtIn.of_refers refers) fuel

theorem Traced.run_succ (traced : rule.Traced world) (fuel : Nat) :
    rule.run world (fuel + 1) = settle (rule.kind world.store) (rule.bodyRun world fuel) := by
  cases rule with
  | external number => exact absurd rfl (traced.inside number)
  | _ => rfl

/-- A rule whose body is traced is sound. -/
theorem Traced.isSound (traced : rule.Traced world) : rule.IsSound world := by
  intro fuel
  cases fuel with
  | zero =>
    intro situation
    trivial
  | succ fuel =>
    rw [traced.run_succ]
    exact settle_sound (traced.traces fuel)

/-- A rule yields what its body answers; the stream moves to the end of a match and stays without one. -/
theorem yields_iff {answer : Option Match} (traced : rule.Traced world) :
    rule.Yields world situation answer after ↔
      ∃ middle, Gives (rule.bodyRun world) situation answer middle ∧ Settles situation.stream answer after ∧
        after.memory = middle.memory := by
  constructor
  · intro yields
    obtain ⟨fuel, answers⟩ := yields
    cases fuel with
    | zero => cases answers
    | succ fuel =>
      rw [traced.run_succ, settle_eq_ok_iff (traced.traces fuel situation)] at answers
      obtain ⟨middle, inner, settled⟩ := answers
      exact ⟨middle, ⟨fuel, inner⟩, settled⟩
  · intro given
    obtain ⟨middle, ⟨fuel, inner⟩, settled⟩ := given
    refine ⟨fuel + 1, ?_⟩
    rw [traced.run_succ, settle_eq_ok_iff (traced.traces fuel situation)]
    exact ⟨middle, inner, settled⟩

/-- A rule does not match when its body does not; the stream stays. -/
theorem yields_none_iff (traced : rule.Traced world) :
    rule.Yields world situation none after ↔
      ∃ middle, Gives (rule.bodyRun world) situation none middle ∧
        after = { middle with stream := situation.stream } := by
  rw [yields_iff traced]
  constructor
  · intro holds
    obtain ⟨middle, given, stays, memory_eq⟩ := holds
    exact ⟨middle, given, Situation.ext stays memory_eq⟩
  · intro holds
    obtain ⟨middle, given, rfl⟩ := holds
    exact ⟨middle, given, rfl, rfl⟩

/-- A rule matches what its body matches; the stream moves to the end of the match. -/
theorem yields_some_iff (traced : rule.Traced world) :
    rule.Yields world situation (some found) after ↔
      ∃ middle, Gives (rule.bodyRun world) situation (some found) middle ∧ found.Spans situation.stream after.stream ∧
        after.memory = middle.memory :=
  yields_iff traced

/-- From a place an answer ends at the end of its match, or nowhere without a match. -/
def Ends (place : TokenStream) : Option Match → Option TokenStream → Prop :=
  Option.Rel fun found finish => found.Spans place finish

theorem Ends.unique {place : TokenStream} {answer : Option Match} {result result' : Option TokenStream}
    (ends : Ends place answer result) (ends' : Ends place answer result') : result = result' := by
  cases ends with
  | none =>
    cases ends'
    rfl
  | some spans =>
    cases ends' with
    | some spans' => exact congrArg some (spans.reads.unique spans'.reads)

/-- A rule ends where the answer of its body ends. -/
theorem Traced.ends_iff {result : Option TokenStream} (traced : rule.Traced world) :
    (∃ answer after, rule.Yields world situation answer after ∧ result = answer.map fun _ => after.stream) ↔
      ∃ answer middle, Gives (rule.bodyRun world) situation answer middle ∧ Ends situation.stream answer result := by
  constructor
  · intro holds
    obtain ⟨answer, after, yields, rfl⟩ := holds
    obtain ⟨middle, given, settles, -⟩ := (yields_iff traced).mp yields
    refine ⟨answer, middle, given, ?_⟩
    cases answer with
    | none => exact .none
    | some found => exact .some settles
  · intro holds
    obtain ⟨answer, middle, given, ends⟩ := holds
    cases ends with
    | none => exact ⟨none, _, (yields_none_iff traced).mpr ⟨middle, given, rfl⟩, rfl⟩
    | @some found finish spans =>
      exact ⟨some found, { middle with stream := finish }, (yields_some_iff traced).mpr ⟨middle, given, spans, rfl⟩, rfl⟩

/-- Where its body gives an answer, a rule yields it. -/
theorem Traced.exists_yields {answer : Option Match} (traced : rule.Traced world)
    (given : Gives (rule.bodyRun world) situation answer after) :
    ∃ later, rule.Yields world situation answer later := by
  have traces : Traces situation.stream answer := given.meets fun fuel => traced.traces fuel situation
  cases answer with
  | none => exact ⟨_, (yields_none_iff traced).mpr ⟨after, given, rfl⟩⟩
  | some found =>
    obtain ⟨finish, spans⟩ := traces
    exact ⟨{ after with stream := finish }, (yields_some_iff traced).mpr ⟨after, given, spans, rfl⟩⟩

end TokenGrammar.Rule
