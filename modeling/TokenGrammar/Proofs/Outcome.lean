import TokenGrammar.Rule.Run
import TokenGrammar.Proofs.Reading
import TokenGrammar.Proofs.Stateful

namespace TokenGrammar

abbrev Outcome (α : Type) := EStateM.Result Stop Situation α

def Outcome.left {α : Type} : Outcome α → Situation
  | .ok _ after | .error _ after => after

/-- The answer, or the reason to stop. -/
def Outcome.result {α : Type} : Outcome α → Except Stop α
  | .ok answer _ => .ok answer
  | .error stop _ => .error stop

/-- An outcome meets a condition when it is an answer that does or when the fuel has run out. -/
def Meets {α : Type} (outcome : Outcome α) (condition : α → Situation → Prop) : Prop :=
  match outcome with
  | .ok answer after => condition answer after
  | .error (.fault _) _ => False
  | .error .exhausted _ => True

@[simp] theorem meets_ok {α : Type} {answer : α} {after : Situation} {condition : α → Situation → Prop} :
    Meets (.ok answer after) condition ↔ condition answer after := Iff.rfl

theorem Meets.mono {α : Type} {outcome : Outcome α} {condition stronger : α → Situation → Prop}
    (meets : Meets outcome stronger) (weaken : ∀ answer after, stronger answer after → condition answer after) :
    Meets outcome condition := by
  match outcome, meets with
  | .ok answer after, meets => exact weaken answer after meets
  | .error .exhausted _, _ => trivial

theorem Meets.and {α : Type} {outcome : Outcome α} {first second : α → Situation → Prop} (meets : Meets outcome first)
    (others : Meets outcome second) : Meets outcome fun answer after => first answer after ∧ second answer after := by
  match outcome, meets, others with
  | .ok answer after, meets, others => exact ⟨meets, others⟩
  | .error .exhausted _, _, _ => trivial

namespace Attempt

variable {α β : Type} {situation : Situation}

@[simp] theorem pure_apply (answer : α) : (pure answer : Attempt α) situation = .ok answer situation := rfl

@[simp] theorem stream_bind_apply (next : TokenStream → Attempt β) :
    (Attempt.stream >>= next) situation = next situation.stream situation := rfl

@[simp] theorem captures_bind_apply (next : Captures → Attempt β) :
    (Attempt.captures >>= next) situation = next situation.memory.captures situation := rfl

@[simp] theorem goTo_bind_apply (place : TokenStream) (next : Unit → Attempt β) :
    (Attempt.goTo place >>= next) situation = next () { situation with stream := place } := rfl

@[simp] theorem setCaptures_bind_apply (captures : Captures) (next : Unit → Attempt β) :
    (Attempt.setCaptures captures >>= next) situation =
      next () { situation with memory := { situation.memory with captures } } := rfl

@[simp] theorem notice_bind_apply (notice : Notice) (next : Unit → Attempt β) :
    (Attempt.notice notice >>= next) situation =
      next () { situation with
        memory := { situation.memory with notices := notice :: situation.memory.notices } } := rfl

@[simp] theorem ofResult_ok (answer : α) : ofResult (.ok answer) = (pure answer : Attempt α) := rfl

/-- An attempt apart works on its own view of the stream and puts the stream back, whatever it comes to. -/
theorem apart_apply (view : TokenStream → TokenStream) (attempt : Attempt α) :
    apart view attempt situation =
      match attempt { situation with stream := view situation.stream } with
      | .ok answer after => .ok answer { after with stream := situation.stream }
      | .error stop after => .error stop { after with stream := situation.stream } := rfl

/-- Where a visible token is ahead, it is read. -/
theorem read_bind_apply {token : Token} {behind : TokenStream} (next : Token → Attempt β)
    (read : situation.stream.read? = some (token, behind)) :
    (Attempt.read >>= next) situation = next token { situation with stream := behind } := by
  have result : situation.stream.read = .ok (token, behind) := by simp [TokenStream.read, read]
  simp only [Attempt.read, bind_assoc, stream_bind_apply, result, ofResult_ok, pure_bind, goTo_bind_apply]

variable {condition : β → Situation → Prop} {middle : α → Situation → Prop}

/-- What meets a condition is followed by what meets another one from there. -/
theorem meets_bind {attempt : Attempt α} {next : α → Attempt β} (first : Meets (attempt situation) middle)
    (second : ∀ answer after, middle answer after → Meets (next answer after) condition) :
    Meets ((attempt >>= next) situation) condition := by
  rw [Stateful.bind_apply]
  match attempt situation, first with
  | .ok answer after, first => exact second answer after first
  | .error .exhausted _, _ => trivial

theorem meets_apart {view : TokenStream → TokenStream} {attempt : Attempt β}
    (meets : Meets (attempt { situation with stream := view situation.stream }) fun answer after =>
      condition answer { after with stream := situation.stream }) :
    Meets (apart view attempt situation) condition := by
  rw [apart_apply]
  match attempt { situation with stream := view situation.stream }, meets with
  | .ok answer after, meets => exact meets
  | .error .exhausted _, _ => trivial

end Attempt

end TokenGrammar
