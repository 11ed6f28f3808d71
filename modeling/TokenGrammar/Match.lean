import TokenGrammar.Rule.Basic

namespace TokenGrammar

/-- A match runs from its start up to, not including, its finish. -/
structure Match where
  start : Number
  finish : Number
  tokens : List Token
  rule : Rule

namespace Match

/-- Makes a match; it does not begin below zero and does not end before it begins. -/
def create (start finish : Number) (tokens : List Token) (rule : Rule) : Except Fault Match := do
  check ((Number.ofNat 0).atMost start) (.negativeStart start)
  check (start.atMost finish) (.endBeforeStart finish start)
  return { start, finish, tokens, rule }

def empty (place : Number) (rule : Rule) : Except Fault Match := create place place [] rule

def isZeroWidth (found : Match) : Bool := found.start.same found.finish

theorem create_ofNat {start finish : Nat} (ordered : start ≤ finish) (tokens : List Token) (rule : Rule) :
    create (.ofNat start) (.ofNat finish) tokens rule =
      .ok { start := .ofNat start, finish := .ofNat finish, tokens := tokens, rule := rule } := by
  simp [create, check, bind, Except.bind, pure, Except.pure, ordered]

theorem eq_of_create {start finish : Number} {tokens : List Token} {rule : Rule} {found : Match}
    (made : create start finish tokens rule = .ok found) : found = { start, finish, tokens, rule } := by
  obtain ⟨-, made⟩ := check_bind_eq_ok_iff.mp made
  obtain ⟨-, made⟩ := check_bind_eq_ok_iff.mp made
  cases made
  rfl

end Match

end TokenGrammar
