import TokenGrammar.Proofs.Composition

namespace TokenGrammar

def Situation.mapNotices (change : List Notice → List Notice) (situation : Situation) : Situation :=
  { situation with memory.notices := change situation.memory.notices }

def Outcome.mapNotices {α : Type} (change : List Notice → List Notice) (outcome : Outcome α) : Outcome α :=
  match outcome with
  | .ok answer after => .ok answer (after.mapNotices change)
  | .error stop after => .error stop (after.mapNotices change)

namespace Attempt

variable {α β : Type} {change : List Notice → List Notice} {attempt attempt' : Attempt α} {next next' : α → Attempt β}

/-- Two attempts are in step when the second one does after changed notices what the first one does, and leaves behind
what that leaves, changed in the same way. -/
def InStep (change : List Notice → List Notice) (attempt attempt' : Attempt α) : Prop :=
  ∀ situation, attempt' (situation.mapNotices change) = Outcome.mapNotices change (attempt situation)

namespace InStep

theorem bind (first : InStep change attempt attempt') (second : ∀ answer, InStep change (next answer) (next' answer)) :
    InStep change (attempt >>= next) (attempt' >>= next') := by
  intro situation
  rw [Stateful.bind_apply, Stateful.bind_apply, first]
  cases attempt situation with
  | ok answer after => exact second answer after
  | error stop after => rfl

theorem apart (view : TokenStream → TokenStream) (inner : InStep change attempt attempt') :
    InStep change (Attempt.apart view attempt) (Attempt.apart view attempt') := by
  intro situation
  have same := inner { situation with stream := view situation.stream }
  simp only [Situation.mapNotices] at same
  simp only [apart_apply, Situation.mapNotices, same]
  cases attempt { situation with stream := view situation.stream } <;> rfl

end InStep

/-- Attempts stay in step as long as what they are put together from does. -/
theorem inStep_composable (change : List Notice → List Notice) :
    Composable fun (α : Type) (attempt : Bool → Attempt α) => InStep change (attempt false) (attempt true) where
  pure _ := fun _ => rfl
  fail _ := fun _ => rfl
  exhaust := fun _ => rfl
  stream := fun _ => rfl
  goTo _ := fun _ => rfl
  captures := fun _ => rfl
  bind first second := first.bind second
  apart view inner := inner.apart view

/-- Making a notice if it is shown is in step with making it. -/
theorem inStep_shown (shows : Notice → Bool) (notice : Notice) :
    InStep (List.filter shows) (Attempt.notice notice) (if shows notice then Attempt.notice notice else pure ()) := by
  intro situation
  cases shown : shows notice <;>
    simp [Attempt.notice, Situation.mapNotices, Outcome.mapNotices, shown]

end Attempt

/-- What rules have to tell is no trace of a pass. -/
theorem Notice.isTrace_of_rules {notice : Notice} (rules : notice.scope = "rules") : notice.isTrace = false := by
  cases notice with
  | ruleMatched => simp [scope] at rules
  | _ => rfl

/-- What a caller does depends on the stream and the captures alone. -/
theorem Run.leaveToCaller_inStep (change : List Notice → List Notice) (supplied : ExternalRule) :
    Attempt.InStep change (Run.leaveToCaller supplied) (Run.leaveToCaller supplied) := by
  intro situation
  simp only [Run.leaveToCaller, Situation.mapNotices]
  cases (supplied.behave situation.stream situation.memory.captures).result <;> rfl

def Situation.withEarlier (situation : Situation) (earlier : List Notice) : Situation :=
  { situation with memory.notices := situation.memory.notices ++ earlier }

def Outcome.withEarlier {α : Type} (outcome : Outcome α) (earlier : List Notice) : Outcome α :=
  match outcome with
  | .ok answer after => .ok answer (after.withEarlier earlier)
  | .error stop after => .error stop (after.withEarlier earlier)

/-- An attempt ignores notices when it does the same after earlier ones, and leaves them behind its own. -/
def Attempt.IgnoresNotices {α : Type} (attempt : Attempt α) : Prop :=
  ∀ situation earlier, attempt (situation.withEarlier earlier) = Outcome.withEarlier (attempt situation) earlier

/-- What ignores notices is in step with itself after earlier ones. -/
theorem Attempt.ignoresNotices_iff {α : Type} {attempt : Attempt α} :
    attempt.IgnoresNotices ↔ ∀ earlier, InStep (· ++ earlier) attempt attempt :=
  ⟨fun ignores earlier situation => ignores situation earlier, fun inStep situation earlier => inStep earlier situation⟩

theorem Attempt.ignoresNotices_compositional :
    Compositional fun (α : Type) (attempt : Unit → Attempt α) => ∀ i, (attempt i).IgnoresNotices where
  pure _ := fun _ _ _ => rfl
  fail _ := fun _ _ _ => rfl
  exhaust := fun _ _ _ => rfl
  stream := fun _ _ _ => rfl
  goTo _ := fun _ _ _ => rfl
  captures := fun _ _ _ => rfl
  notice _ := fun _ _ _ => rfl
  bind first second := fun i => ignoresNotices_iff.mpr fun earlier =>
    (ignoresNotices_iff.mp (first i) earlier).bind fun answer => ignoresNotices_iff.mp (second answer i) earlier
  apart view inner := fun i => ignoresNotices_iff.mpr fun earlier =>
    (ignoresNotices_iff.mp (inner i) earlier).apart view

/-- Rules ignore notices. -/
theorem Rule.run_ignoresNotices (world : World) (rule : Rule) (fuel : Nat) : (rule.run world fuel).IgnoresNotices :=
  Attempt.ignoresNotices_compositional.runs (fun _ _ _ _ => rfl)
    (fun supplied _ => Attempt.ignoresNotices_iff.mpr fun _ => Run.leaveToCaller_inStep _ supplied) rule fuel ()

end TokenGrammar
