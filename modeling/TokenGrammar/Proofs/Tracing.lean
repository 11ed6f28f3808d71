import TokenGrammar.Proofs.Notices
import TokenGrammar.Proofs.Passes
import TokenGrammar.Proofs.Processing
import TokenGrammar.Proofs.Returns

namespace TokenGrammar

/-- The notices of a situation that a pass has made. -/
def Situation.engineNotices (situation : Situation) : List Notice :=
  situation.memory.notices.filter fun notice => notice.scope = "engine"

namespace Attempt

/-- An attempt that notices nothing in the name of the engine. -/
def OutsideEngine {α : Type} (attempt : Attempt α) : Prop :=
  ∀ situation, (Outcome.left (attempt situation)).engineNotices = situation.engineNotices

theorem OutsideEngine.bind {α β : Type} {attempt : Attempt α} {next : α → Attempt β} (first : attempt.OutsideEngine)
    (second : ∀ answer, (next answer).OutsideEngine) : (attempt >>= next).OutsideEngine := by
  intro situation
  rw [Stateful.bind_apply, ← first situation]
  cases attempt situation with
  | ok answer middle => exact second answer middle
  | error stop middle => rfl

theorem OutsideEngine.apart {α : Type} {attempt : Attempt α} (view : TokenStream → TokenStream)
    (inner : attempt.OutsideEngine) : (Attempt.apart view attempt).OutsideEngine := by
  intro situation
  have same := inner { situation with stream := view situation.stream }
  rw [apart_apply]
  cases outcome : attempt { situation with stream := view situation.stream } <;> rw [outcome] at same <;> exact same

/-- What is put together from attempts outside of the engine is outside of the engine. -/
theorem outsideEngine_composable :
    Composable fun (α : Type) (attempt : Unit → Attempt α) => ∀ i, (attempt i).OutsideEngine where
  pure _ := fun _ _ => rfl
  fail _ := fun _ _ => rfl
  exhaust := fun _ _ => rfl
  stream := fun _ _ => rfl
  goTo _ := fun _ _ => rfl
  captures := fun _ _ => rfl
  bind first second := fun i => (first i).bind fun answer => second answer i
  apart view inner := fun i => (inner i).apart view

/-- Callers notice nothing. -/
theorem callBack_outsideEngine {α : Type} (callback : Callback α) : (Attempt.callBack callback).OutsideEngine := by
  intro situation
  rw [Attempt.callBack]
  cases callback situation.memory.captures <;> rfl

end Attempt

/-- Rules notice nothing in the name of the engine. -/
theorem Rule.runIn_outsideEngine (store : RuleStore) (table : Table) (fuel : Nat) (rule : Rule) :
    (rule.runIn (.ofTable store table Attempt.notice) fuel).OutsideEngine := by
  refine Attempt.outsideEngine_composable.runIn (fun _ key => Attempt.callBack (table.resolve key))
    (fun _ => Attempt.notice) (fun _ _ => Attempt.callBack_outsideEngine _) ?_ (fun _ _ _ => rfl) ?_ rule fuel ()
  · intro notice rules i situation
    simp [Attempt.notice, Outcome.left, Situation.engineNotices, rules]
  · intro supplied i situation
    simp only [Run.leaveToCaller]
    cases (supplied.behave situation.stream situation.memory.captures).result <;> rfl

/-- Actions notice nothing. -/
theorem CallerAction.apply_outsideEngine (action : CallerAction) (store : RuleStore) (found : Match) :
    (action.apply store found).OutsideEngine := by
  have composable := Attempt.outsideEngine_composable
  cases action with
  | builtIn action => exact composable.bind composable.captures (fun _ => composable.ofResult _) ()
  | custom => exact Attempt.callBack_outsideEngine _

/-- Actions stay where they are. -/
theorem CallerAction.stream_of_apply {action : CallerAction} {store : RuleStore} {found : Match} {edit : Edit}
    {situation after : Situation} (applies : action.apply store found situation = .ok edit after) :
    after.stream = situation.stream := by
  cases action with
  | builtIn action =>
    simp only [CallerAction.apply, Attempt.captures_bind_apply] at applies
    cases made : action.apply store situation.memory.captures found with
    | error fault =>
      rw [made] at applies
      cases applies
    | ok edit =>
      rw [made] at applies
      cases applies
      rfl
  | custom kind hasMode act =>
    simp only [CallerAction.apply, Attempt.callBack] at applies
    split at applies
    · cases applies
      rfl
    · cases applies

/-- The match that a piece is written for. -/
def Piece.found? : Piece → Option Match
  | .shadows _ | .unmatched _ => none
  | .insertion found _ _ | .replacement found _ => some found

namespace Pass

/-- The first matches on the way of a pass, in so many steps at most, each with the rule that matches. The match is one
of them when the action on it fails, and the last one. -/
def topMatches (act : BoundRule → Match → Attempt Edit) (store : RuleStore) (run : Rule → Run) (rules : List BoundRule) :
    Nat → Situation → List (BoundRule × Match)
  | 0, _ => []
  | fuel + 1, situation =>
    if situation.stream.hasMore then
      match firstMatch run rules { situation with stream := situation.stream.skipShadows } with
      | .error _ _ => []
      | .ok answer middle =>
        answer.toList ++
          match write Attempt.notice act store answer middle with
          | .error _ _ => []
          | .ok _ next => topMatches act store run rules fuel next
    else []

def topNotice (store : RuleStore) (top : BoundRule × Match) : Notice := matchNotice store top.1 top.2

variable {act : BoundRule → Match → Attempt Edit} {store : RuleStore} {each : Rule → Run} {rules : List BoundRule}
  {situation after : Situation} {answer : Option (BoundRule × Match)} {made written : List Piece} {fuel : Nat}

/-- Of what a pass does at a visible token, only a match is noticed in the name of the engine. -/
theorem engineNotices_write (acts : ∀ bound found, (act bound found).OutsideEngine) (store : RuleStore)
    (answer : Option (BoundRule × Match)) (situation : Situation) :
    (Outcome.left (write Attempt.notice act store answer situation)).engineNotices =
      answer.toList.map (topNotice store) ++ situation.engineNotices := by
  have composable := Attempt.outsideEngine_composable
  cases answer with
  | none => exact composable.copyToken .unmatched () situation
  | some top =>
    obtain ⟨bound, found⟩ := top
    -- What follows the notice is what would be done without it.
    have silent : ∀ _ : Unit, (edit (fun _ => pure ()) act store bound found).OutsideEngine :=
      composable.edit (composable.pure ()) fun _ => acts bound found
    exact silent () { situation with memory.notices := matchNotice store bound found :: situation.memory.notices }

/-- What a pass notices in the name of the engine are its matches. -/
theorem engineNotices_pieces (outside : ∀ rule, (each rule).OutsideEngine)
    (acts : ∀ bound found, (act bound found).OutsideEngine) (fuel : Nat) (situation : Situation) :
    (Outcome.left (pieces Attempt.notice act store each rules fuel situation)).engineNotices =
      ((topMatches act store each rules fuel situation).map (topNotice store)).reverse ++ situation.engineNotices := by
  induction fuel generalizing situation with
  | zero => rfl
  | succ fuel ih =>
    have all : (firstMatch each rules).OutsideEngine :=
      Attempt.outsideEngine_composable.firstMatchIn (fun rule _ => outside rule) ()
    have tried := all { situation with stream := situation.stream.skipShadows }
    rw [pieces_succ, topMatches]
    split
    · rw [Stateful.bind_apply]
      cases first : firstMatch each rules { situation with stream := situation.stream.skipShadows } with
      | error stop middle =>
        rw [first] at tried
        exact tried
      | ok answer middle =>
        rw [first] at tried
        have here : (answer.toList.map (topNotice store)).reverse ++ situation.engineNotices =
            (Outcome.left (write Attempt.notice act store answer middle)).engineNotices := by
          rw [engineNotices_write acts, show middle.engineNotices = situation.engineNotices from tried]
          cases answer <;> rfl
        dsimp only
        rw [Stateful.bind_apply, List.map_append, List.reverse_append, List.append_assoc, here]
        cases write Attempt.notice act store answer middle with
        | error stop next => rfl
        | ok made next =>
          dsimp only
          rw [Stateful.bind_apply]
          refine Eq.trans ?_ (ih next)
          cases pieces Attempt.notice act store each rules fuel next <;> rfl
    · rfl

/-- What is tried first stays where it is tried. -/
theorem stream_of_firstMatch (answers : firstMatch each rules situation = .ok answer after) :
    after.stream = situation.stream := by
  induction rules generalizing situation with
  | nil =>
    cases answers
    rfl
  | cons bound rest ih =>
    rw [firstMatch, Stateful.bind_apply, Attempt.apart_apply] at answers
    match outcome : each bound.rule situation with
    | .ok none middle =>
      simp only [id_eq, outcome] at answers
      rw [ih answers]
    | .ok (some found) middle =>
      simp only [id_eq, outcome] at answers
      cases answers
      rfl
    | .error stop middle =>
      simp only [id_eq, outcome] at answers
      cases answers

/-- The pieces that are written at a visible token are written for the match there, if there is one. -/
theorem filterMap_found?_of_write
    (still : ∀ {bound found situation edit after}, act bound found situation = .ok edit after →
      after.stream = situation.stream)
    (more : situation.stream.hasMore = true)
    (writes : write Attempt.notice act store answer situation = .ok made after) :
    made.filterMap Piece.found? = answer.toList.map Prod.snd := by
  obtain ⟨token, behind, read⟩ := TokenStream.exists_read_of_hasMore more
  cases answer with
  | none =>
    rw [write, Engine.copyToken_apply _ read] at writes
    cases writes
    rfl
  | some top =>
    obtain ⟨bound, found⟩ := top
    rw [write, edit, Attempt.notice_bind_apply] at writes
    obtain ⟨edit, middle, acts, writes⟩ := Stateful.bind_eq_ok_iff.mp writes
    split at writes
    · have read : middle.stream.read? = some (token, behind) := by
        rw [still acts]
        exact read
      rw [Engine.copyToken_apply _ read] at writes
      cases writes
      rfl
    · rw [Attempt.stream_bind_apply] at writes
      obtain ⟨place, later, moves, writes⟩ := Stateful.bind_eq_ok_iff.mp writes
      cases writes
      rfl

/-- In the pieces of a pass that returns its matches are found, in their order. -/
theorem filterMap_found?_of_pieces
    (still : ∀ {bound found situation edit after}, act bound found situation = .ok edit after →
      after.stream = situation.stream)
    (returns : pieces Attempt.notice act store each rules fuel situation = .ok written after) :
    written.filterMap Piece.found? = (topMatches act store each rules fuel situation).map Prod.snd := by
  induction fuel generalizing situation written with
  | zero => cases returns
  | succ fuel ih =>
    rw [pieces_succ] at returns
    rw [topMatches]
    split at returns
    · next more =>
      obtain ⟨answer, middle, first, returns⟩ := Stateful.bind_eq_ok_iff.mp returns
      obtain ⟨made, next, writes, returns⟩ := Stateful.bind_eq_ok_iff.mp returns
      obtain ⟨rest, last, goesOn, joins⟩ := Stateful.bind_eq_ok_iff.mp returns
      cases joins
      have here : middle.stream.hasMore = true := by
        rw [stream_of_firstMatch first]
        exact TokenStream.hasMore_skipShadows more
      rw [if_pos more, first]
      dsimp only
      rw [writes]
      rw [List.map_append, ← filterMap_found?_of_write still here writes, ← ih goesOn, List.filterMap_append,
        List.filterMap_append]
      rfl
    · next ends =>
      rw [if_neg ends]
      cases returns
      rfl

end Pass

namespace Processor

/-- The first matches of a pass over tokens in a context that shows a table. -/
def matchesOn (processor : Processor) (store : RuleStore) (fuel : Nat) (table : Table) (tokens : List Token) :
    List (BoundRule × Match) :=
  Pass.topMatches (fun bound found => bound.action.apply store found) store
    (Rule.runIn (.ofTable store table Attempt.notice) fuel) processor.rules fuel (.fresh tokens)

variable (processor : Processor) (store : RuleStore) (fuel : Nat) (arena : Arena) (tokens : List Token)

/-- In the name of the engine the matches of a pass are noticed, in their order, and nothing else. -/
theorem engineNotices_pass :
    ((processor.pass store .everything fuel tokens arena).1.notices.reverse.filter fun notice : Notice =>
      notice.scope = "engine") =
      (processor.matchesOn store fuel (arena.tableOf processor.context) tokens).map (Pass.topNotice store) := by
  have noticed : (Outcome.left (processor.piecesIn store .everything fuel (arena.tableOf processor.context)
      (.fresh tokens))).engineNotices = _ :=
    Pass.engineNotices_pieces (Rule.runIn_outsideEngine store (arena.tableOf processor.context) fuel)
      (fun bound found => bound.action.apply_outsideEngine store found) fuel (.fresh tokens)
  rw [pass_eq, List.filter_reverse, ← Situation.engineNotices, noticed]
  simp [matchesOn, Situation.engineNotices, Situation.fresh]

theorem filterMap_found?_of_pass {written : List Piece}
    (returns : (processor.pass store .everything fuel tokens arena).1.result = .ok written) :
    written.filterMap Piece.found? =
      (processor.matchesOn store fuel (arena.tableOf processor.context) tokens).map Prod.snd := by
  rw [pass_eq] at returns
  cases outcome : processor.piecesIn store .everything fuel (arena.tableOf processor.context) (.fresh tokens) with
  | error stop after =>
    rw [outcome] at returns
    cases returns
  | ok pieces after =>
    rw [outcome] at returns
    cases returns
    exact Pass.filterMap_found?_of_pieces CallerAction.stream_of_apply outcome

end Processor

end TokenGrammar
