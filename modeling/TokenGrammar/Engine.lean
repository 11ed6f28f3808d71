import TokenGrammar.Action
import TokenGrammar.Rule.Run

namespace TokenGrammar

/-- A rule and the action on its matches. -/
structure RuleBinding where
  rule : Rule
  action : Action

/-- A piece of a pass: shadows, a token that no rule matches, an edit in front of a token that its rule did not
take, or an edit in the place of the tokens that its rule took. -/
inductive Piece where
  | shadows (tokens : List Token)
  | unmatched (token : Token)
  | insertion (found : Match) (edit : Edit) (token : Token)
  | replacement (found : Match) (edit : Edit)

namespace Piece

def output : Piece → List Token
  | .shadows tokens => tokens
  | .unmatched token => [token]
  | .insertion _ edit token => edit.tokens ++ [token]
  | .replacement _ edit => edit.tokens

/-- What the action of a piece handed out. -/
def extracted : Piece → List Token
  | .shadows _ | .unmatched _ => []
  | .insertion _ edit _ | .replacement _ edit => edit.extracted

end Piece

namespace Engine

/-- The first of several bindings whose rule matches, each tried at the same place. -/
def firstMatch (run : Rule → Run) : List RuleBinding → Attempt (Option (RuleBinding × Match))
  | [] => return none
  | binding :: rest => do
    match ← Attempt.apart id (run binding.rule) with
    | none => firstMatch run rest
    | some found => return some (binding, found)

def copyToken (piece : Token → Piece) : Attempt (List Piece) := do
  return ((← Attempt.read?).map piece).toList

/-- Tells of a match and writes its piece. -/
def editMatchTelling (tell : Notice → Attempt Unit) (world : World) (binding : RuleBinding) (found : Match) :
    Attempt (List Piece) := do
  tell (.ruleMatched (binding.rule.kind world.store) found.start found.finish binding.action.kind)
  let captures ← Attempt.captures
  let edit ← Attempt.ofResult (binding.action.apply world.store captures found)
  if found.isZeroWidth then copyToken (.insertion found edit)
  else do
    Attempt.goTo (← Attempt.ofResult ((← Attempt.stream).moveTo found.finish))
    return [.replacement found edit]

/-- Notices a match and writes its piece. -/
def editMatch (world : World) (binding : RuleBinding) (found : Match) : Attempt (List Piece) :=
  editMatchTelling Attempt.notice world binding found

/-- Goes over the rest of the tokens, in so many steps at most, and tells of each match. -/
def piecesTelling (tell : Notice → Attempt Unit) (world : World) (run : Rule → Run) (bindings : List RuleBinding) :
    Nat → Attempt (List Piece)
  | 0 => Attempt.exhaust
  | fuel + 1 => do
    let stream ← Attempt.stream
    let shadows := [Piece.shadows stream.shadows]
    Attempt.goTo stream.skipShadows
    if stream.hasMore then
      let pieces ← match ← firstMatch run bindings with
        | some (binding, found) => editMatchTelling tell world binding found
        | none => copyToken .unmatched
      let rest ← piecesTelling tell world run bindings fuel
      return shadows ++ pieces ++ rest
    else return shadows

/-- Goes over the rest of the tokens, in so many steps at most, and notices each match. -/
def piecesFrom (world : World) (run : Rule → Run) (bindings : List RuleBinding) (fuel : Nat) : Attempt (List Piece) :=
  piecesTelling Attempt.notice world run bindings fuel

/-- The pieces of a pass over tokens. -/
def pieces (world : World) (fuel : Nat) (bindings : List RuleBinding) : Attempt (List Piece) :=
  piecesFrom world (Rule.run world fuel) bindings fuel

end Engine

/-- The outcome of a pass: the pieces or the reason to stop, and what was noticed on the way, the latest
first. -/
structure Passage where
  result : Except Stop (List Piece)
  notices : List Notice

namespace Passage

def output (pieces : List Piece) : List Token := pieces.flatMap Piece.output

/-- The tokens that the actions of a pass hand out. -/
def extracted (pieces : List Piece) : List Token := pieces.flatMap Piece.extracted

end Passage

/-- Bindings in the order in which they are tried. -/
structure Engine where
  bindings : List RuleBinding := []

namespace Engine

def addRule (engine : Engine) (rule : Rule) (action : Action) : Engine :=
  { engine with bindings := engine.bindings ++ [{ rule, action }] }

/-- Goes over tokens once, starting from no captures. -/
def process (engine : Engine) (world : World) (fuel : Nat) (tokens : List Token) : Passage :=
  match pieces world fuel engine.bindings { stream := .ofTokens tokens, memory := {} } with
  | .ok pieces after => { result := .ok pieces, notices := after.memory.notices }
  | .error stop after => { result := .error stop, notices := after.memory.notices }

end Engine

end TokenGrammar
