import TokenGrammar.Rule.Run

namespace TokenGrammar

namespace Range

/-- What is left of a range after so many counts. -/
def after (range : Range) (count : Nat) : Range where
  least := range.least - count
  most := range.most.map (· - count)
  ordered limit reached := by
    obtain ⟨most, known, rfl⟩ := Option.map_eq_some_iff.mp reached
    exact Nat.sub_le_sub_right (range.ordered most known) count

theorem after_zero (range : Range) : range.after 0 = range := by
  obtain ⟨least, most, ordered⟩ := range
  simp [after]

theorem after_after (range : Range) (first second : Nat) :
    (range.after first).after second = range.after (first + second) := by
  obtain ⟨least, most, ordered⟩ := range
  cases most <;> simp [after, Nat.sub_sub]

end Range

/-- The farther of two places, the first one if neither is. -/
def TokenStream.farther (first second : TokenStream) : TokenStream :=
  if first.index < second.index then second else first

namespace Rule

/-- The rules that derivations are about: no rule keeps or reads captures, and no repetition is negated. -/
def IsExpression : Rule → Prop
  | .always | .never | .matcher .. | .sequence _ | .anyOf _ | .allOf _ | .optional .. | .lookaround .. => True
  | .repeated _ _ negated => negated = false
  | .not _ | .group _ | .named _ | .selfReferring _ => True
  | _ => False

/-- At a place, a rule derives the place behind what it takes, or failure. -/
inductive Derives (world : World) : Rule → TokenStream → Option TokenStream → Prop
  | always {place : TokenStream} : Derives world .always place (some place)
  | never {place : TokenStream} : Derives world .never place none
  | accepted {test : TokenTest} {negated : Bool} {place next : TokenStream} {token : Token}
      (read : place.read? = some (token, next)) (passes : test.accepts token ≠ negated) :
      Derives world (.matcher test negated) place (some next)
  | rejected {test : TokenTest} {negated : Bool} {place next : TokenStream} {token : Token}
      (read : place.read? = some (token, next)) (fails : test.accepts token = negated) :
      Derives world (.matcher test negated) place none
  | ended {test : TokenTest} {negated : Bool} {place : TokenStream} (read : place.read? = none) :
      Derives world (.matcher test negated) place none
  | sequenceDone {place : TokenStream} : Derives world (.sequence []) place (some place)
  | sequenceFails {first : Rule} {rest : List Rule} {place : TokenStream} (fails : Derives world first place none) :
      Derives world (.sequence (first :: rest)) place none
  | sequenceNext {first : Rule} {rest : List Rule} {place next : TokenStream} {result : Option TokenStream}
      (takes : Derives world first place (some next)) (goesOn : Derives world (.sequence rest) next result) :
      Derives world (.sequence (first :: rest)) place result
  | choiceDone {place : TokenStream} : Derives world (.anyOf []) place none
  | choiceTakes {first : Rule} {rest : List Rule} {place next : TokenStream}
      (takes : Derives world first place (some next)) : Derives world (.anyOf (first :: rest)) place (some next)
  | choiceNext {first : Rule} {rest : List Rule} {place : TokenStream} {result : Option TokenStream}
      (fails : Derives world first place none) (goesOn : Derives world (.anyOf rest) place result) :
      Derives world (.anyOf (first :: rest)) place result
  | allOfLast {last : Rule} {place : TokenStream} {result : Option TokenStream}
      (derives : Derives world last place result) : Derives world (.allOf [last]) place result
  | allOfFails {first second : Rule} {rest : List Rule} {place : TokenStream}
      (fails : Derives world first place none) : Derives world (.allOf (first :: second :: rest)) place none
  | allOfNext {first second : Rule} {rest : List Rule} {place next : TokenStream} {result : Option TokenStream}
      (takes : Derives world first place (some next)) (others : Derives world (.allOf (second :: rest)) place result) :
      Derives world (.allOf (first :: second :: rest)) place (result.map next.farther)
  | optionalTakes {rule : Rule} {negated : Bool} {place next : TokenStream}
      (takes : Derives world (rule.attempted negated) place (some next)) :
      Derives world (.optional rule negated) place (some next)
  | optionalSkips {rule : Rule} {negated : Bool} {place : TokenStream}
      (fails : Derives world (rule.attempted negated) place none) :
      Derives world (.optional rule negated) place (some place)
  | repeatedFull {rule : Rule} {range : Range} {place : TokenStream} (full : range.most = some 0) :
      Derives world (.repeated rule range false) place (some place)
  | repeatedStops {rule : Rule} {range : Range} {place : TokenStream} (room : range.most ≠ some 0)
      (fails : Derives world rule place none) :
      Derives world (.repeated rule range false) place (if range.least = 0 then some place else none)
  | repeatedStays {rule : Rule} {range : Range} {place : TokenStream} (room : range.most ≠ some 0)
      (stays : Derives world rule place (some place)) : Derives world (.repeated rule range false) place (some place)
  | repeatedNext {rule : Rule} {range : Range} {place next : TokenStream} {result : Option TokenStream}
      (room : range.most ≠ some 0) (takes : Derives world rule place (some next)) (moves : place.index < next.index)
      (goesOn : Derives world (.repeated rule (range.after 1) false) next result) :
      Derives world (.repeated rule range false) place result
  | lookaround {direction : Direction} {rule : Rule} {negative : Bool} {place : TokenStream}
      {result : Option TokenStream} (derives : Derives world rule (viewOf direction place) result) :
      Derives world (.lookaround direction rule negative) place
        (if result.isSome != negative then some place else none)
  | not {rule : Rule} {place : TokenStream} {result : Option TokenStream} (more : place.hasMore = true)
      (derives : Derives world rule place result) :
      Derives world (.not rule) place (if result.isSome then none else some place)
  | notEnded {rule : Rule} {place : TokenStream} (ended : place.hasMore = false) :
      Derives world (.not rule) place none
  | group {rule : Rule} {place next : TokenStream} {token : Token} {members : List Token}
      {result : Option TokenStream} (read : place.read? = some (token, next))
      (grouped : token.unwrap.members? = some members) (derives : Derives world rule (.ofTokens members) result) :
      Derives world (.group rule) place (result.map fun _ => next)
  | notGrouped {rule : Rule} {place next : TokenStream} {token : Token} (read : place.read? = some (token, next))
      (single : token.unwrap.members? = none) : Derives world (.group rule) place none
  | groupEnded {rule : Rule} {place : TokenStream} (read : place.read? = none) :
      Derives world (.group rule) place none
  | named {name : Text} {target : Rule} {place : TokenStream} {result : Option TokenStream}
      (bound : world.bindings.rule? name = some target) (derives : Derives world target place result) :
      Derives world (.named name) place result
  | unbound {name : Text} {place : TokenStream} (free : world.bindings.rule? name = none) :
      Derives world (.named name) place none
  | selfReferring {cell : Nat} {target : Rule} {place : TokenStream} {result : Option TokenStream}
      (filled : world.store.content? cell = some target) (derives : Derives world target place result) :
      Derives world (.selfReferring cell) place result
  | unfilled {cell : Nat} {place : TokenStream} (empty : world.store.content? cell = none) :
      Derives world (.selfReferring cell) place none

end Rule

end TokenGrammar
