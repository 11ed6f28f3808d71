import TokenGrammar.Stream

namespace TokenGrammar

/-- A cursor over a list of tokens that never changes: an index, which its operations set. -/
structure Cursor where
  tokens : Array Token
  position : Int := 0

/-- The reasons for which an operation of a cursor stops: a fault, or a token is looked at where there is none. -/
inductive CursorStop where
  | fault (fault : Fault)
  | noToken (index : Int)

/-- Work with a cursor. It may stop, and the cursor stays where it has been left by then. -/
abbrev Cursoring := EStateM CursorStop Cursor

namespace Cursor

/-- The token at an index, if there is one. -/
def tokenAt? (tokens : Array Token) (index : Int) : Option Token :=
  if 0 ≤ index then tokens[index.toNat]? else none

/-- The token at an index, which has to be there. -/
def tokenAt (tokens : Array Token) (index : Int) : Except CursorStop Token :=
  match tokenAt? tokens index with
  | some token => .ok token
  | none => .error (.noToken index)

/-- The first index from here on that does not hold a shadow. -/
def visibleFrom (tokens : Array Token) (index : Int) : Except CursorStop Int :=
  if inside : index < tokens.size then do
    if (← tokenAt tokens index).isShadow then visibleFrom tokens (index + 1) else return index
  else return index
termination_by (tokens.size - index).toNat

/-- The last index up to here that does not hold a shadow, or the one before all others. -/
def visibleBefore (tokens : Array Token) (index : Int) : Except CursorStop Int :=
  if inside : 0 ≤ index then do
    if (← tokenAt tokens index).isShadow then visibleBefore tokens (index - 1) else return index
  else return index
termination_by (index + 1).toNat

theorem le_visibleFrom {tokens : Array Token} {index found : Int} (located : visibleFrom tokens index = .ok found) :
    index ≤ found := by
  fun_induction visibleFrom tokens index generalizing found with
  | case1 index inside ih =>
    obtain ⟨token, -, located⟩ := bind_eq_ok_iff.mp located
    split at located
    · have := ih located
      omega
    · cases located
      exact Int.le_refl _
  | case2 index outside =>
    cases located
    exact Int.le_refl _

theorem visibleBefore_le {tokens : Array Token} {index found : Int} (located : visibleBefore tokens index = .ok found) :
    found ≤ index := by
  fun_induction visibleBefore tokens index generalizing found with
  | case1 index inside ih =>
    obtain ⟨token, -, located⟩ := bind_eq_ok_iff.mp located
    split at located
    · have := ih located
      omega
    · cases located
      exact Int.le_refl _
  | case2 index outside =>
    cases located
    exact Int.le_refl _

/-- Goes on to the next visible token as often as the offset says. -/
def peekAhead (tokens : Array Token) (offset : Number) (count : Nat) (index : Int) : Except CursorStop Int :=
  if _more : (Number.ofNat count).lessThan offset ∧ index < tokens.size then
    match located : visibleFrom tokens (index + 1) with
    | .error stop => .error stop
    | .ok next => peekAhead tokens offset (count + 1) next
  else .ok index
termination_by (tokens.size - index).toNat
decreasing_by
  have := le_visibleFrom located
  omega

/-- Goes back to the visible token before as often as the offset says. -/
def peekBack (tokens : Array Token) (offset : Number) (count : Nat) (index : Int) : Except CursorStop Int :=
  if _more : offset.lessThan (.finite (-count)) ∧ 0 ≤ index then
    match located : visibleBefore tokens (index - 1) with
    | .error stop => .error stop
    | .ok next => peekBack tokens offset (count + 1) next
  else .ok index
termination_by (index + 1).toNat
decreasing_by
  have := visibleBefore_le located
  omega

/-- The index behind so many more visible tokens, which there have to be. -/
def advanceFrom (tokens : Array Token) (fault : Fault) : Nat → Int → Except CursorStop Int
  | 0, target => return target
  | steps + 1, target => do
    let index ← visibleFrom tokens target
    if index < tokens.size then advanceFrom tokens fault steps (index + 1) else throw (.fault fault)

/-- The tokens from one index up to, not including, another. -/
def slice (tokens : Array Token) (start finish : Int) : List Token :=
  let first := TokenStream.sliceBound tokens.size (.finite start)
  let last := TokenStream.sliceBound tokens.size (.finite finish)
  (tokens.toList.drop first).take (last - first)

/-- A cursor at an index, up to that behind the last token. -/
def of (tokens : Array Token) (index : Number) : Except Fault Cursor :=
  match index.toInt? with
  | some position =>
    if 0 ≤ position ∧ position ≤ tokens.size then .ok { tokens, position }
    else .error (.outsideStream index tokens.size)
  | none => .error (.outsideStream index tokens.size)

/-- Goes on with a result that does not move the cursor. -/
def ofResult {α : Type} (result : Except CursorStop α) : Cursoring α := fun cursor =>
  match result with
  | .ok answer => .ok answer cursor
  | .error stop => .error stop cursor

def self : Cursoring Cursor := fun cursor => .ok cursor cursor

def moveTo (position : Int) : Cursoring Unit := fun cursor => .ok () { cursor with position }

def fail {α : Type} (fault : Fault) : Cursoring α := fun cursor => .error (.fault fault) cursor

def hasMore : Cursoring Bool := do
  let { tokens, position } ← self
  return (← ofResult (visibleFrom tokens position)) < tokens.size

/-- The next visible token, which there has to be. -/
def current : Cursoring Token := do
  let { tokens, position } ← self
  let index ← ofResult (visibleFrom tokens position)
  if index < tokens.size then ofResult (tokenAt tokens index) else fail (.endOfStream position.toNat tokens.size)

/-- Takes the next visible token, which there has to be, and moves behind it. -/
def read : Cursoring Token := do
  let token ← current
  let { tokens, position } ← self
  moveTo ((← ofResult (visibleFrom tokens position)) + 1)
  return token

/-- The visible token at an offset from the next one, if there is one. -/
def peek (offset : Number) : Cursoring (Option Token) := do
  let { tokens, position } ← self
  let index ← ofResult (if Number.atMost 0 offset then do peekAhead tokens offset 0 (← visibleFrom tokens position)
    else peekBack tokens offset 0 position)
  return if 0 ≤ index ∧ index < tokens.size then tokenAt? tokens index else none

def previous : Cursoring (Option Token) := peek .minusOne

/-- Moves behind so many visible tokens, which there have to be. -/
def advance (count : Number) : Cursoring Unit := do
  let { tokens, position } ← self
  match count.toNat? with
  | none => fail (.badAdvance count)
  | some steps =>
    moveTo (← ofResult (advanceFrom tokens (.advancePastEnd count position.toNat tokens.size) steps position))

/-- Moves in front of the next visible token, and answers the shadows on the way. -/
def skipShadows : Cursoring (List Token) := do
  let { tokens, position } ← self
  let finish ← ofResult (visibleFrom tokens position)
  moveTo finish
  return slice tokens position finish

def advanceTo (target : Number) : Cursoring Unit := do
  let { tokens, position } ← self
  match target.toInt? with
  | some index =>
    if position ≤ index ∧ index ≤ tokens.size then moveTo index
    else fail (.badTarget position.toNat target tokens.size)
  | none => fail (.badTarget position.toNat target tokens.size)

def lookahead : Cursoring Cursor := self

/-- A cursor at the start of the tokens before the index, the nearest one first. -/
def lookbehind : Cursoring Cursor := do
  let { tokens, position } ← self
  return { tokens := (slice tokens 0 position).reverse.toArray }

def copyWithIndex (index : Number) : Cursoring Cursor := do
  match of (← self).tokens index with
  | .ok made => return made
  | .error fault => fail fault

def resetToStart : Cursoring Unit := moveTo 0

end Cursor

end TokenGrammar
