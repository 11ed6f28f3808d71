import TokenGrammar.Configuration
import TokenGrammar.Engine
import TokenGrammar.Rule.Surroundings

namespace TokenGrammar

/-- The actions of callers: those of the library, and others that may do anything in the context that they are given. Of
these it is known whether they have a mode, as actions have that merge tokens. -/
inductive CallerAction where
  | builtIn (action : Action)
  | custom (kind : Text) (hasMode : Bool) (act : RuleStore → Match → Callback Edit)

namespace CallerAction

def kind : CallerAction → Text
  | .builtIn action => action.kind
  | .custom kind _ _ => kind

/-- Whether an action merges tokens into a group. -/
def isGrouping : CallerAction → Bool
  | .builtIn action => action.isGrouping
  | .custom kind hasMode _ => kind == "grouping" && hasMode

/-- Applies an action to a match in the context at hand. -/
def apply (action : CallerAction) (store : RuleStore) (found : Match) : Attempt Edit :=
  match action with
  | .builtIn action => do Attempt.ofResult (action.apply store (← Attempt.captures) found)
  | .custom _ _ act => Attempt.callBack (act store found)

end CallerAction

/-- A rule with the action of a caller on its matches. -/
structure BoundRule where
  rule : Rule
  action : CallerAction

namespace Pass

/-- The first of several rules that matches, each tried at the same place. -/
def firstMatch (run : Rule → Run) : List BoundRule → Attempt (Option (BoundRule × Match))
  | [] => return none
  | bound :: rest => do
    match ← Attempt.apart id (run bound.rule) with
    | none => firstMatch run rest
    | some found => return some (bound, found)

def matchNotice (store : RuleStore) (bound : BoundRule) (found : Match) : Notice :=
  .ruleMatched (bound.rule.kind store) found.start found.finish bound.action.kind

/-- Tells of a match, applies the action and writes the piece. -/
def edit (tell : Notice → Attempt Unit) (act : BoundRule → Match → Attempt Edit) (store : RuleStore) (bound : BoundRule)
    (found : Match) : Attempt (List Piece) := do
  tell (matchNotice store bound found)
  let edit ← act bound found
  if found.isZeroWidth then Engine.copyToken (.insertion found edit)
  else do
    Attempt.goTo (← Attempt.ofResult ((← Attempt.stream).moveTo found.finish))
    return [.replacement found edit]

/-- Goes over the rest of the tokens, in so many steps at most. -/
def pieces (tell : Notice → Attempt Unit) (act : BoundRule → Match → Attempt Edit) (store : RuleStore)
    (run : Rule → Run) (rules : List BoundRule) : Nat → Attempt (List Piece)
  | 0 => Attempt.exhaust
  | fuel + 1 => do
    let stream ← Attempt.stream
    let shadows := [Piece.shadows stream.shadows]
    Attempt.goTo stream.skipShadows
    if stream.hasMore then
      let here ← match ← firstMatch run rules with
        | some (bound, found) => edit tell act store bound found
        | none => Engine.copyToken .unmatched
      return shadows ++ here ++ (← pieces tell act store run rules fuel)
    else return shadows

end Pass

/-- How a pass tells of its matches, and how the rules on its way tell of what they do not find. -/
structure Telling where
  matched : Notice → Attempt Unit
  lacking : Notice → Attempt Unit

def Telling.everything : Telling := ⟨Attempt.notice, Attempt.notice⟩

/-- Rules in the order in which they are tried, and the context whose forks they are tried in. -/
structure Processor where
  rules : List BoundRule := []
  context : Nat

namespace Processor

def addRule (processor : Processor) (rule : Rule) (action : CallerAction) : Processor :=
  { processor with rules := processor.rules ++ [{ rule, action }] }

/-- The start of a pass over tokens in a context. -/
def start (arena : Arena) (scope : Nat) (tokens : List Token) : Situation :=
  { stream := .ofTokens tokens, memory := { captures := arena.capturesOf scope } }

/-- The pieces of a pass in a context. -/
def piecesIn (processor : Processor) (store : RuleStore) (telling : Telling) (fuel : Nat) (table : Table) :
    Attempt (List Piece) :=
  Pass.pieces telling.matched (fun bound found => bound.action.apply store found) store
    (Rule.runIn (.ofTable store table telling.lacking) fuel) processor.rules fuel

/-- Goes over tokens once in a fork of the context, which keeps what is captured on the way. -/
def pass (processor : Processor) (store : RuleStore) (telling : Telling) (fuel : Nat) (tokens : List Token)
    (arena : Arena) : Passage × Arena :=
  let (forked, arena) := arena.fork processor.context
  match processor.piecesIn store telling fuel (arena.tableOf forked) (start arena forked tokens) with
  | .ok pieces after =>
    ({ result := .ok pieces, notices := after.memory.notices }, arena.setCaptures forked after.memory.captures)
  | .error stop after =>
    ({ result := .error stop, notices := after.memory.notices }, arena.setCaptures forked after.memory.captures)

end Processor

/-- Writes a notice where it is made, if notices of its level are written by then. -/
def Attempt.log (configuration : Configuration) (notice : Notice) : Attempt Unit := do
  let (_, writes, loading) := configuration.ask fun settings => settings.writes notice.level
  loading.forM Attempt.notice
  if writes then Attempt.notice notice

/-- Everything is logged, matches only if they are traced. -/
def Telling.logging (configuration : Configuration) (traces : Bool) : Telling where
  matched notice := if traces then Attempt.log configuration notice else pure ()
  lacking := Attempt.log configuration

/-- The outcome of a pass that logs: the pieces or the reason to stop, and what was written, in its order. -/
structure LoggedPassage where
  result : Except Stop (List Piece)
  written : List Notice

namespace Processor

/-- Goes over tokens once and logs. The configuration is asked at the start whether matches are traced, and again whenever
there is something to be written; the first to ask has the settings loaded. -/
def process (processor : Processor) (store : RuleStore) (fuel : Nat) (tokens : List Token) (arena : Arena)
    (configuration : Configuration) : LoggedPassage × Arena × Configuration :=
  let (loaded, traces, loading) := configuration.ask LoadedSettings.traces
  let (passage, arena) := processor.pass store (.logging loaded traces) fuel tokens arena
  ({ result := passage.result, written := loading ++ passage.notices.reverse }, arena, loaded)

end Processor

/-- A grammar in an arena: its active rules in the order in which they are tried, its named rules with their actions, and
its context. -/
structure SharedGrammar where
  rules : List BoundRule
  definitions : Entries Text BoundRule
  context : Nat

namespace SharedGrammar

/-- Goes over tokens with the active rules. -/
def parse (grammar : SharedGrammar) (store : RuleStore) (fuel : Nat) (tokens : List Token) (arena : Arena)
    (configuration : Configuration) : LoggedPassage × Arena × Configuration :=
  Processor.process ⟨grammar.rules, grammar.context⟩ store fuel tokens arena configuration

/-- Goes over tokens with a named rule alone, which there has to be. -/
def parseWith (grammar : SharedGrammar) (store : RuleStore) (fuel : Nat) (name : Text) (tokens : List Token)
    (arena : Arena) (configuration : Configuration) : Except Fault LoggedPassage × Arena × Configuration :=
  match grammar.definitions.lookup name with
  | some bound =>
    let (passage, arena, configuration) :=
      Processor.process ⟨[bound], grammar.context⟩ store fuel tokens arena configuration
    (.ok passage, arena, configuration)
  | none => (.error (.ruleNotDefined name), arena, configuration)

end SharedGrammar

end TokenGrammar
