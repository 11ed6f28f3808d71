import TokenGrammar.Bindings
import TokenGrammar.Notice

namespace TokenGrammar

/-- What attempts leave behind: captures, and notices with the latest first. -/
@[ext] structure Memory where
  captures : Captures := {}
  notices : List Notice := []

/-- The stream and the memory of an attempt. -/
@[ext] structure Situation where
  stream : TokenStream
  memory : Memory

/-- The reasons to stop without an answer. -/
inductive Stop where
  | fault (fault : Fault)
  | exhausted

/-- A computation on a situation that may stop; the situation is kept when it does. -/
abbrev Attempt := EStateM Stop Situation

/-- What rules need to know around them: the store of rules and the bindings of names. -/
structure World where
  store : RuleStore := {}
  bindings : Bindings := {}

namespace Attempt

def stream : Attempt TokenStream := fun situation => .ok situation.stream situation

def goTo (stream : TokenStream) : Attempt Unit := fun situation => .ok () { situation with stream }

def captures : Attempt Captures := fun situation => .ok situation.memory.captures situation

def setCaptures (captures : Captures) : Attempt Unit := fun situation =>
  .ok () { situation with memory := { situation.memory with captures } }

def notice (notice : Notice) : Attempt Unit := fun situation =>
  .ok () { situation with memory := { situation.memory with notices := notice :: situation.memory.notices } }

def fail {α : Type} (fault : Fault) : Attempt α := fun situation => .error (.fault fault) situation

/-- Stops because there is no fuel left. -/
def exhaust {α : Type} : Attempt α := fun situation => .error .exhausted situation

/-- Takes over a result, or the fault in its place. -/
def ofResult {α : Type} : Except Fault α → Attempt α
  | .ok result => pure result
  | .error fault => fail fault

/-- Makes an attempt on another view of the stream; the stream itself stays where it is. -/
def apart {α : Type} (view : TokenStream → TokenStream) (attempt : Attempt α) : Attempt α := fun situation =>
  match attempt { situation with stream := view situation.stream } with
  | .ok result after => .ok result { after with stream := situation.stream }
  | .error stop after => .error stop { after with stream := situation.stream }

/-- Reads the next visible token, if there is one. -/
def read? : Attempt (Option Token) := do
  match (← stream).read? with
  | some (token, behind) => do
    goTo behind
    return some token
  | none => return none

/-- Reads the next visible token, which there has to be. -/
def read : Attempt Token := do
  let (token, behind) ← ofResult (← stream).read
  goTo behind
  return token

end Attempt

end TokenGrammar
