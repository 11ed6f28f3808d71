import TokenGrammar.Attempt

namespace TokenGrammar

/-- What a run of a rule is: a match, no match, or a stop. -/
abbrev Run := Attempt (Option Match)

namespace Run

def noMatch : Run := pure none

/-- A match of no tokens at the place of the stream. -/
def here (rule : Rule) : Run := do
  let stream ← Attempt.stream
  return some (← Attempt.ofResult (Match.empty (.ofNat stream.index) rule))

/-- A match of no tokens where a condition holds. -/
def hereIf (condition : Bool) (rule : Rule) : Run := if condition then here rule else noMatch

/-- A match from an index to the place of the stream. -/
def since (start : Nat) (tokens : List Token) (rule : Rule) : Run := do
  let stream ← Attempt.stream
  return some (← Attempt.ofResult (Match.create (.ofNat start) (.ofNat stream.index) tokens rule))

/-- Whether a run on another view of the stream matches. -/
def succeeds (view : TokenStream → TokenStream) (run : Run) : Attempt Bool := do
  return (← Attempt.apart view run).isSome

/-- Moves the stream to the end of a match, which has to begin where the stream stands. -/
def arrive (kind : Text) (found : Match) : Run := do
  let stream ← Attempt.stream
  if found.start.same (.ofNat stream.index) then
    Attempt.goTo (← Attempt.ofResult (stream.moveTo found.finish))
    return some found
  else Attempt.fail (.wrongStart kind found.start stream.index)

/-- Runs on a copy of the stream and moves the stream to the end of the match. -/
def settle (kind : Text) (body : Run) : Run := do
  match ← Attempt.apart id body with
  | none => noMatch
  | some found => arrive kind found

/-- Passes a match on under the name of another rule. -/
def delegate (run : Run) (rule : Rule) : Run := do
  let start := (← Attempt.stream).index
  match ← run with
  | none => noMatch
  | some found => return some (← Attempt.ofResult (Match.create (.ofNat start) found.finish found.tokens rule))

/-- Takes one token that passes a test. -/
def ofTest (test : Token → Bool) (rule : Rule) : Run := do
  let start ← Attempt.stream
  if start.hasMore then
    let token ← Attempt.read
    if test token then since start.index [token] rule else noMatch
  else noMatch

/-- Runs one after the other, and collects the tokens if all of them match. -/
def inTurn (run : Rule → Run) : List Rule → Attempt (Option (List Token))
  | [] => return some []
  | rule :: rest => do
    match ← run rule with
    | none => return none
    | some found => do
      match ← inTurn run rest with
      | none => return none
      | some tokens => return some (found.tokens ++ tokens)

/-- The first match of several rules, each tried at the same place. -/
def firstOf (run : Rule → Run) : List Rule → Run
  | [] => noMatch
  | rule :: rest => do
    match ← Attempt.apart id (run rule) with
    | none => firstOf run rest
    | some found => return some found

/-- The farther of two matches, the first one if they end at the same place. -/
def farther (first second : Match) : Match := if first.finish.lessThan second.finish then second else first

/-- The farthest match of several rules, all of which have to match at the same place. -/
def farthestOf (run : Rule → Run) (farthest : Option Match) : List Rule → Run
  | [] => return farthest
  | rule :: rest => do
    match ← Attempt.apart id (run rule) with
    | none => noMatch
    | some found =>
      farthestOf run (some (match farthest with
        | some earlier => farther earlier found
        | none => found)) rest

/-- Runs again and again while the count stays below a limit. A match of no tokens ends the repetition and
counts as every repetition still required. The answer is the count and the tokens. -/
def repeating (run : Run) (least : Nat) (limit : Option Nat) : Nat → Nat → Attempt (Nat × List Token)
  | 0, _ => Attempt.exhaust
  | fuel + 1, count =>
    if limit.any fun limit => limit ≤ count then return (count, [])
    else do
      match ← run with
      | none => return (count, [])
      | some found =>
        if found.isZeroWidth then return (max (count + 1) least, [])
        else do
          let (total, tokens) ← repeating run least limit fuel (count + 1)
          return (total, found.tokens ++ tokens)

/-- Goes on until the closing rule matches, and collects the tokens. Each step before takes what the given
step takes, which answers no tokens if it cannot go on. -/
def untilClosed (closing : Run) (step : Attempt (Option (List Token))) :
    Nat → Attempt (Option (List Token))
  | 0 => Attempt.exhaust
  | fuel + 1 => do
    match ← closing with
    | some found => return some found.tokens
    | none =>
      if (← Attempt.stream).hasMore then
        match ← step with
        | none => return none
        | some tokens => do
          match ← untilClosed closing step fuel with
          | none => return none
          | some rest => return some (tokens ++ rest)
      else return none

/-- A step of a boundary with a body: the body has to take something. -/
def bodyStep (body : Run) : Attempt (Option (List Token)) := do
  match ← body with
  | none => return none
  | some found => return if found.isZeroWidth then none else some found.tokens

/-- A step of a boundary without a body: one visible token. -/
def tokenStep : Attempt (Option (List Token)) := do
  return some [← Attempt.read]

/-- An opening rule, steps, and a closing rule. -/
def bounded (opening closing : Run) (step : Attempt (Option (List Token))) (fuel : Nat) (rule : Rule) :
    Run := do
  let start := (← Attempt.stream).index
  match ← opening with
  | none => noMatch
  | some found => do
    match ← untilClosed closing step fuel with
    | none => noMatch
    | some tokens => since start (found.tokens ++ tokens) rule

/-- Reads tokens with the values of the given ones, in their order. -/
def readValues : List Token → Attempt (Option (List Token))
  | [] => return some []
  | expected :: rest => do
    match (← Attempt.stream).current? with
    | none => return none
    | some next =>
      if next.value = expected.value then
        let token ← Attempt.read
        return (← readValues rest).map fun tokens => token :: tokens
      else return none

/-- Matches tokens with the values of the given ones. -/
def sameValues (expected : List Token) (rule : Rule) : Run := do
  let start := (← Attempt.stream).index
  match ← readValues expected with
  | none => noMatch
  | some tokens => since start tokens rule

/-- Matches a group whose members a rule matches from the first on. -/
def insideGroup (run : Run) (rule : Rule) : Run := do
  let start := (← Attempt.stream).index
  match (← Attempt.stream).current? with
  | none => noMatch
  | some token =>
    match token.unwrap.members? with
    | none => noMatch
    | some members =>
      if ← succeeds (fun _ => .ofTokens members) run then do
        Attempt.goTo (← Attempt.ofResult ((← Attempt.stream).advance 1))
        since start [token] rule
      else noMatch

/-- Runs a rule that a caller supplied; wherever it leaves the stream, the tokens stay the same. -/
def leaveToCaller (external : ExternalRule) : Run := fun situation =>
  let outcome := external.behave situation.stream situation.memory.captures
  let after : Situation :=
    { stream := situation.stream.seek outcome.index
      memory := { situation.memory with captures := outcome.captures } }
  match outcome.result with
  | .ok found => .ok found after
  | .error fault => .error (.fault fault) after

end Run

namespace Anchor

/-- Whether one token is known to begin on a later line than another one ends on. -/
def isLater (earlier later : Token) : Bool :=
  earlier.endPosition.isPositioned && later.position.isPositioned &&
    earlier.endPosition.line.lessThan later.position.line

/-- Whether a token holds a line feed. -/
def holdsLineFeed (token : Token) : Bool := token.value.contains "\n"

/-- Whether a stream stands at the start of a line: at its first visible token, behind a line feed, or at a
token on a later line than the one before it. -/
def atLineStart (stream : TokenStream) : Bool :=
  match stream.previous? with
  | none => true
  | some previous =>
    holdsLineFeed previous ||
      match stream.ahead? 0 with
      | some current => isLater previous current
      | none => false

/-- Whether a stream stands at the end of a line: behind its last visible token, at a line feed, or before a
token on a later line. -/
def atLineEnd (stream : TokenStream) : Bool :=
  match stream.ahead? 0 with
  | none => true
  | some current =>
    holdsLineFeed current ||
      match stream.ahead? 1 with
      | some next => isLater current next
      | none => false

/-- Whether an anchor holds at the place of a stream. -/
def holds (anchor : Anchor) (stream : TokenStream) : Bool :=
  match anchor with
  | .startDocument => stream.previous?.isNone
  | .endDocument => !stream.hasMore
  | .startLine => atLineStart stream
  | .endLine => atLineEnd stream

end Anchor

namespace Rule

open Run

/-- The part of the stream that a lookaround looks at. -/
def viewOf : Direction → TokenStream → TokenStream
  | .ahead => id
  | .behind => TokenStream.lookbehind

/-- Runs the rule bound to a name, and tells if there is none. -/
def followNameTelling (tell : Notice → Attempt Unit) (world : World) (run : Rule → Run) (name : Text) (self : Rule) :
    Run :=
  match world.bindings.rule? name with
  | some rule => delegate (run rule) self
  | none => do
    tell (.recursionNotDefined name)
    noMatch

/-- Runs what a reference finds: the rule bound to its key, what the resolver of its key finds, or the tokens
kept under its key. It tells if it finds nothing. -/
def followReferenceTelling (tell : Notice → Attempt Unit) (world : World) (run : Rule → Run) (key : Text)
    (kind : ReferenceKind) (self : Rule) : Run := do
  match if kind = .tokens then none else world.bindings.rule? key with
  | some rule => delegate (run rule) self
  | none => do
    let captures ← Attempt.captures
    match if kind = .dynamic then world.bindings.resolve? key captures else none with
    | some (.rule rule) => delegate (run rule) self
    | some (.tokens tokens) => sameValues tokens self
    | none =>
      match if kind = .rule then none else captures.find? key with
      | some tokens => sameValues tokens self
      | none => do
        tell (.referenceNotBound key kind)
        noMatch

/-- Runs what a reference finds, and notices if it finds nothing. -/
def followReference (world : World) (run : Rule → Run) (key : Text) (kind : ReferenceKind) (self : Rule) : Run :=
  followReferenceTelling Attempt.notice world run key kind self

/-- What a rule does on its copy of the stream, given how other rules run. -/
def body (world : World) (fuel : Nat) (run : Rule → Run) (self : Rule) : Run :=
  match self with
  | .always => here self
  | .never => noMatch
  | .matcher test negated => ofTest (fun token => test.accepts token != negated) self
  | .sequence rules => do
    let start := (← Attempt.stream).index
    match ← inTurn run rules with
    | none => noMatch
    | some tokens => since start tokens self
  | .anyOf alternatives => firstOf run alternatives
  | .allOf rules => farthestOf run none rules
  | .optional rule negated => do
    let start := (← Attempt.stream).index
    match ← run (rule.attempted negated) with
    | none => return some (← Attempt.ofResult (Match.empty (.ofNat start) self))
    | some found =>
      return some (← Attempt.ofResult (Match.create (.ofNat start) found.finish found.tokens self))
  | .repeated rule range negated => do
    let start := (← Attempt.stream).index
    let limit := if negated then range.most.map (· + 1) else range.most
    let (count, tokens) ← repeating (run rule) range.least limit fuel 0
    if range.contains count != negated then since start tokens self else noMatch
  | .lookaround direction rule negative => do
    let matched ← succeeds (viewOf direction) (run rule)
    hereIf (matched != negative) self
  | .anchor place negated => do
    let stream ← Attempt.stream
    hereIf (place.holds stream != negated) self
  | .boundary opening closing => bounded (run opening) (run closing) tokenStep fuel self
  | .filledBoundary opening body closing =>
    bounded (run opening) (run closing) (bodyStep (run body)) fuel self
  | .named name => followNameTelling Attempt.notice world run name self
  | .selfReferring cell | .lazy cell =>
    match world.store.content? cell with
    | some rule => delegate (run rule) self
    | none => noMatch
  | .group rule => insideGroup (run rule) self
  | .capture key rule => do
    match ← delegate (run rule) self with
    | none => noMatch
    | some found => do
      Attempt.setCaptures (← Attempt.ofResult ((← Attempt.captures).capture key found.tokens))
      return some found
  | .reference key kind => followReference world run key kind self
  | .not rule => do
    if (← Attempt.stream).hasMore then
      let matched ← succeeds id (run rule)
      hereIf (!matched) self
    else noMatch
  | .external _ => noMatch

/-- Runs a rule: a caller's own rule as it is, and any other rule on a copy of the stream. -/
def step (world : World) (fuel : Nat) (run : Rule → Run) (rule : Rule) : Run :=
  match rule with
  | .external number =>
    match world.store.external? number with
    | some supplied => leaveToCaller supplied
    | none => noMatch
  | _ => settle (rule.kind world.store) (rule.body world fuel run)

/-- Runs a rule with so much fuel: each rule on the way to another takes one unit, and a repetition goes on
at most that often. -/
def run (world : World) : Nat → Rule → Run
  | 0, _ => Attempt.exhaust
  | fuel + 1, rule => rule.step world fuel (run world fuel)

end Rule

/-- The answer of a run at the place of a stream. -/
structure Answer where
  result : Except Stop (Option Match)
  stream : TokenStream
  memory : Memory

/-- Runs a rule at the place of a stream with captures of its own. -/
def Rule.answer (rule : Rule) (world : World) (fuel : Nat) (stream : TokenStream) (captures : Captures) :
    Answer :=
  match rule.run world fuel { stream, memory := { captures } } with
  | .ok found after => { result := .ok found, stream := after.stream, memory := after.memory }
  | .error stop after => { result := .error stop, stream := after.stream, memory := after.memory }

end TokenGrammar
