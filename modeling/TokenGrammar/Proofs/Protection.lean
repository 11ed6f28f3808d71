import TokenGrammar.Proofs.Outcome
import TokenGrammar.Proofs.Reach
import TokenGrammar.Rule.Mentions

namespace TokenGrammar

/-- An outcome leaves a stream to its caller when a match that is answered runs from the place of the stream to the place
where the stream is then, among the same tokens, and when the stream stays without a match and at a stop. -/
def LeavesToCaller (before : TokenStream) : Outcome (Option Match) → Prop
  | .ok (some found) after =>
    found.start = .ofNat before.index ∧ found.finish = .ofNat after.stream.index ∧
      before.index ≤ after.stream.index ∧ after.stream.index ≤ before.size ∧ after.stream.tokens = before.tokens
  | .ok none after => after.stream = before
  | .error _ after => after.stream = before

theorem Number.eq_ofNat_of_same {number : Number} {count : Nat} (alike : number.same (.ofNat count) = true) :
    number = .ofNat count := by
  cases number with
  | finite value => simpa [Number.same, Number.ofNat] using alike
  | notANumber | infinite => cases alike

namespace Run

variable {situation : Situation}

/-- To arrive at the end of a match is to move there or not at all. -/
theorem arrive_leavesToCaller (kind : Text) (found : Match) :
    LeavesToCaller situation.stream (arrive kind found situation) := by
  rw [arrive, Attempt.stream_bind_apply]
  split
  · rename_i begins
    cases moves : situation.stream.moveTo found.finish with
    | error fault => rfl
    | ok place =>
      obtain ⟨finish_eq, behind, within, tokens_eq⟩ := TokenStream.bounds_of_moveTo moves
      exact ⟨Number.eq_ofNat_of_same begins, finish_eq, behind, within, tokens_eq⟩
  · rfl

/-- Whatever is done on the copy of a stream, the stream is left to its caller. -/
theorem settle_leavesToCaller (kind : Text) (body : Run) :
    LeavesToCaller situation.stream (settle kind body situation) := by
  rw [settle, Stateful.bind_apply, Attempt.apart_apply]
  cases body { situation with stream := id situation.stream } with
  | error stop after => rfl
  | ok answer after =>
    cases answer with
    | none => rfl
    | some found => exact @arrive_leavesToCaller { after with stream := situation.stream } kind found

end Run

namespace Rule

variable {world : World} {rule : Rule}

/-- A rule of the library leaves the stream to its caller whatever the rules do that a caller supplied to it, and just so
whatever would be done in the place of any rule that it refers to. -/
theorem run_leavesToCaller (own : rule.externalNumber? = none) (fuel : Nat) (situation : Situation) :
    LeavesToCaller situation.stream (rule.run world fuel situation) ∧
      ∀ each : Rule → Run, LeavesToCaller situation.stream (rule.step world fuel each situation) := by
  have steps (fuel : Nat) (each : Rule → Run) :
      LeavesToCaller situation.stream (rule.step world fuel each situation) := by
    cases rule with
    | external number => cases own
    | _ => exact Run.settle_leavesToCaller ..
  refine ⟨?_, steps fuel⟩
  cases fuel with
  | zero => rfl
  | succ fuel => exact steps fuel (run world fuel)

end Rule

namespace Brackets

/-- A caller's rule that leaves its stream in the middle and answers a match that is not there. -/
def unruly : ExternalRule :=
  { kind := "unruly", parts := none, behave := fun _ captures => ⟨.ok (some ⟨0, 99, [], .always⟩), 3, captures⟩ }

def unrulyWorld : World := { store := { externals := #[unruly] } }

/-- The unruly rule, or nothing where it does not match. -/
def unrulyIfAny : Rule := .optional (.external 0) false

end Brackets

/-- What the unruly rule answers is beyond the end of the stream, and the stream stays where it was. -/
theorem Rule.unruly_fault_leaves_stream :
    Brackets.unrulyIfAny.externalNumber? = none ∧
      (∃ fault after, Brackets.unrulyIfAny.run Brackets.unrulyWorld 2 ⟨Brackets.stream, {}⟩ = .error (.fault fault) after ∧
        after.stream = Brackets.stream) ∧
      LeavesToCaller Brackets.stream (Brackets.unrulyIfAny.run Brackets.unrulyWorld 2 ⟨Brackets.stream, {}⟩) := by
  obtain ⟨leaves, -⟩ := @run_leavesToCaller Brackets.unrulyWorld Brackets.unrulyIfAny rfl 2 ⟨Brackets.stream, {}⟩
  refine ⟨rfl, ?_, leaves⟩
  have stops : ∃ fault after, Brackets.unrulyIfAny.run Brackets.unrulyWorld 2 ⟨Brackets.stream, {}⟩ =
      .error (.fault fault) after := ⟨_, _, rfl⟩
  obtain ⟨fault, after, stops⟩ := stops
  rw [stops] at leaves
  exact ⟨fault, after, stops, leaves⟩

end TokenGrammar
