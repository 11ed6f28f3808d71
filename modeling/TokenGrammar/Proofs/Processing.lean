import TokenGrammar.Proofs.Surroundings
import TokenGrammar.Proofs.Tables

namespace TokenGrammar

/-- The start of a pass over tokens where nothing is captured. -/
def Situation.fresh (tokens : List Token) : Situation := { stream := .ofTokens tokens, memory := {} }

namespace Pass

variable {tell : Notice → Attempt Unit} {act : BoundRule → Match → Attempt Edit} {store : RuleStore} {each : Rule → Run}
  {rules : List BoundRule} {situation : Situation}

/-- What a pass does at a visible token where its rules come to this answer. -/
def write (tell : Notice → Attempt Unit) (act : BoundRule → Match → Attempt Edit) (store : RuleStore) :
    Option (BoundRule × Match) → Attempt (List Piece)
  | some (bound, found) => edit tell act store bound found
  | none => Engine.copyToken .unmatched

theorem pieces_succ (fuel : Nat) :
    pieces tell act store each rules (fuel + 1) situation =
      if situation.stream.hasMore then
        (firstMatch each rules >>= fun answer => write tell act store answer >>= fun made =>
          pieces tell act store each rules fuel >>= fun rest =>
            pure ([Piece.shadows situation.stream.shadows] ++ made ++ rest))
          { situation with stream := situation.stream.skipShadows }
      else .ok [Piece.shadows situation.stream.shadows] { situation with stream := situation.stream.skipShadows } := by
  rw [pieces, Attempt.stream_bind_apply, Attempt.goTo_bind_apply]
  split
  · rw [Stateful.bind_apply, Stateful.bind_apply]
    cases firstMatch each rules { situation with stream := situation.stream.skipShadows } with
    | error stop after => rfl
    | ok answer after => cases answer <;> rfl
  · rfl

end Pass

namespace Configuration

/-- The settings that are in effect as soon as they are loaded. -/
def settings (configuration : Configuration) : LoadedSettings := configuration.load.2.1

/-- How a pass tells of its matches, and its rules of what they do not find, under the configuration that it begins
with. -/
def telling (configuration : Configuration) : Telling := .logging configuration.load.1 configuration.settings.traces

end Configuration

namespace Processor

/-- In a fork a pass starts with nothing captured. -/
theorem start_fork (arena : Arena) (context : Nat) (tokens : List Token) :
    start (arena.fork context).2 (arena.fork context).1 tokens = .fresh tokens := by
  rw [start, Arena.capturesOf, Arena.cellOf_fork_self]
  rfl

theorem pass_eq (processor : Processor) (store : RuleStore) (telling : Telling) (fuel : Nat) (tokens : List Token)
    (arena : Arena) :
    processor.pass store telling fuel tokens arena =
      let outcome : Outcome (List Piece) :=
        processor.piecesIn store telling fuel (arena.tableOf processor.context) (.fresh tokens)
      let forked := arena.fork processor.context
      ({ result := outcome.result, notices := outcome.left.memory.notices },
        forked.2.setCaptures forked.1 outcome.left.memory.captures) := by
  simp only [pass, start_fork, Arena.tableOf_fork_self]
  cases processor.piecesIn store telling fuel (arena.tableOf processor.context) (.fresh tokens) <;> rfl

/-- A pass that logs is one that tells under its configuration. It begins with the notices of loading the settings. -/
theorem process_eq (processor : Processor) (store : RuleStore) (fuel : Nat) (tokens : List Token) (arena : Arena)
    (configuration : Configuration) :
    processor.process store fuel tokens arena configuration =
      let (passage, after) := processor.pass store configuration.telling fuel tokens arena
      ({ result := passage.result, written := configuration.load.2.2 ++ passage.notices.reverse }, after,
        configuration.load.1) :=
  rfl

end Processor

end TokenGrammar
