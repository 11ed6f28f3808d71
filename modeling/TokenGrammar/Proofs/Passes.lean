import TokenGrammar.Engine
import TokenGrammar.Proofs.Laws.Lists

namespace TokenGrammar.Engine

open Attempt (Approximates Grows Gives gives_pure_iff)
open Rule (run run_approximates gives_tried_bind_iff)

variable {world : World} {bindings : List RuleBinding} {binding : RuleBinding} {situation after middle : Situation}
  {answer : Option (RuleBinding × Match)} {found : Match}

/-- The first of several bindings whose rule matches, with all bindings before it tried in vain. Each of them is
tried at the same place, with what the tries before it have left in the memory. -/
inductive FirstMatch (world : World) :
    List RuleBinding → Situation → Option (RuleBinding × Match) → Situation → Prop
  | nil (situation : Situation) : FirstMatch world [] situation none situation
  | later {binding : RuleBinding} {rest : List RuleBinding} {situation middle after : Situation}
      {answer : Option (RuleBinding × Match)} (refuses : binding.rule.Yields world situation none middle)
      (others : FirstMatch world rest { middle with stream := situation.stream } answer after) :
      FirstMatch world (binding :: rest) situation answer after
  | here {binding : RuleBinding} {rest : List RuleBinding} {situation middle : Situation} {found : Match}
      (yields : binding.rule.Yields world situation (some found) middle) :
      FirstMatch world (binding :: rest) situation (some (binding, found)) { middle with stream := situation.stream }

namespace FirstMatch

theorem stream_eq (first : FirstMatch world bindings situation answer after) : after.stream = situation.stream := by
  induction first with
  | nil | here => rfl
  | later _ _ ih => exact ih

/-- The binding that is found is one of those that were tried, and its rule matched at the place. -/
theorem exists_yields (first : FirstMatch world bindings situation (some (binding, found)) after) :
    binding ∈ bindings ∧ ∃ tried middle, tried.stream = situation.stream ∧
      binding.rule.Yields world tried (some found) middle := by
  generalize answers : some (binding, found) = answer at first
  induction first with
  | nil => cases answers
  | later _ _ ih =>
    obtain ⟨member, tried, middle, same, yields⟩ := ih answers
    exact ⟨List.mem_cons_of_mem _ member, tried, middle, same, yields⟩
  | here yields =>
    cases answers
    exact ⟨List.mem_cons_self .., _, _, rfl, yields⟩

/-- There is only one first match. -/
theorem unique {other : Option (RuleBinding × Match)} {after' : Situation}
    (first : FirstMatch world bindings situation answer after)
    (second : FirstMatch world bindings situation other after') : answer = other ∧ after = after' := by
  induction first with
  | nil =>
    cases second
    exact ⟨rfl, rfl⟩
  | later refuses _ ih =>
    cases second with
    | later refuses' others' =>
      obtain ⟨-, rfl⟩ := refuses.unique refuses'
      exact ih others'
    | here yields => cases (refuses.unique yields).1
  | here yields =>
    cases second with
    | later refuses _ => cases (yields.unique refuses).1
    | here yields' =>
      obtain ⟨same, rfl⟩ := yields.unique yields'
      cases same
      exact ⟨rfl, rfl⟩

/-- Where every rule that is tried answers, there is a first match or none at all. -/
theorem exists_of_answers
    (answers : ∀ before binding rest tried, bindings = before ++ binding :: rest →
      FirstMatch world before situation none tried → ∃ found middle, binding.rule.Yields world tried found middle) :
    ∃ answer after, FirstMatch world bindings situation answer after := by
  induction bindings generalizing situation with
  | nil => exact ⟨none, situation, .nil situation⟩
  | cons binding rest ih =>
    obtain ⟨found, middle, yields⟩ := answers [] binding rest situation rfl (.nil situation)
    cases found with
    | some found => exact ⟨_, _, .here yields⟩
    | none =>
      obtain ⟨answer, after, others⟩ := ih fun before other others tried split inVain =>
        answers (binding :: before) other others tried (by rw [split, List.cons_append]) (.later yields inVain)
      exact ⟨answer, after, .later yields others⟩

end FirstMatch

theorem firstMatch_approximates {each each' : Rule → Run} (all : ∀ rule, (each rule).Approximates (each' rule))
    (bindings : List RuleBinding) : (firstMatch each bindings).Approximates (firstMatch each' bindings) := by
  induction bindings with
  | nil => exact .refl _
  | cons binding rest ih =>
    apply ((all binding.rule).apart id).bind
    intro found
    cases found with
    | none => exact ih
    | some found => exact .refl _

theorem firstMatch_grows (bindings : List RuleBinding) : Grows fun fuel => firstMatch (run world fuel) bindings :=
  fun _ _ enough => firstMatch_approximates (fun _ => run_approximates enough) bindings

/-- What the tries of the bindings give is the first match. -/
theorem gives_firstMatch_iff : Gives (fun fuel => firstMatch (run world fuel) bindings) situation answer after ↔
    FirstMatch world bindings situation answer after := by
  induction bindings generalizing situation with
  | nil =>
    refine gives_pure_iff.trans ⟨?_, ?_⟩
    · intro same
      rw [same.1, same.2]
      exact .nil situation
    · intro first
      cases first
      exact ⟨rfl, rfl⟩
  | cons binding rest ih =>
    refine (gives_tried_bind_iff ?_).trans ⟨?_, ?_⟩
    · intro found
      cases found with
      | none => exact firstMatch_grows rest
      | some found => exact Grows.const _
    · intro given
      obtain ⟨found, middle, yields, goesOn⟩ := given
      cases found with
      | none => exact .later yields (ih.mp goesOn)
      | some found =>
        obtain ⟨rfl, rfl⟩ := gives_pure_iff.mp goesOn
        exact .here yields
    · intro first
      cases first with
      | later refuses others => exact ⟨none, _, refuses, ih.mpr others⟩
      | here yields => exact ⟨_, _, yields, gives_pure_iff.mpr ⟨rfl, rfl⟩⟩

/-- The pieces that a pass writes at a visible token. -/
def writePieces (world : World) : Option (RuleBinding × Match) → Attempt (List Piece)
  | some (binding, found) => editMatch world binding found
  | none => copyToken .unmatched

theorem copyToken_apply {token : Token} {behind : TokenStream} (piece : Token → Piece)
    (read : situation.stream.read? = some (token, behind)) :
    copyToken piece situation = .ok [piece token] { situation with stream := behind } := by
  rw [copyToken, Stateful.bind_apply, Attempt.read?, Attempt.stream_bind_apply, read]
  rfl

/-- The situation behind a match, which a pass notices. -/
def noticed (world : World) (binding : RuleBinding) (found : Match) (situation : Situation) : Situation :=
  { situation with
    memory.notices := .ruleMatched (binding.rule.kind world.store) found.start found.finish binding.action.kind ::
      situation.memory.notices }

/-- What an action makes of a match is written in front of the next token if the match takes nothing, and in the
place of the tokens that it takes if not. -/
theorem writePieces_some {edit : Edit}
    (edits : binding.action.apply world.store situation.memory.captures found = .ok edit) :
    writePieces world (some (binding, found)) situation =
      if found.isZeroWidth then copyToken (.insertion found edit) (noticed world binding found situation)
      else
        (Attempt.ofResult (situation.stream.moveTo found.finish) >>= fun place => Attempt.goTo place >>= fun _ =>
          pure [Piece.replacement found edit]) (noticed world binding found situation) := by
  rw [writePieces, editMatch, editMatchTelling, Attempt.notice_bind_apply, Attempt.captures_bind_apply, edits,
    Attempt.ofResult_ok, pure_bind]
  split <;> rfl

/-- What a pass does behind the shadows at a place: it goes on behind each visible token or ends. -/
theorem piecesFrom_succ (each : Rule → Run) (fuel : Nat) :
    piecesFrom world each bindings (fuel + 1) situation =
      if situation.stream.hasMore then
        (firstMatch each bindings >>= fun answer => writePieces world answer >>= fun made =>
          piecesFrom world each bindings fuel >>= fun rest =>
            pure ([Piece.shadows situation.stream.shadows] ++ made ++ rest))
          { situation with stream := situation.stream.skipShadows }
      else .ok [Piece.shadows situation.stream.shadows] { situation with stream := situation.stream.skipShadows } := by
  rw [piecesFrom, piecesTelling, Attempt.stream_bind_apply, Attempt.goTo_bind_apply]
  split
  · rw [Stateful.bind_apply, Stateful.bind_apply]
    cases firstMatch each bindings { situation with stream := situation.stream.skipShadows } with
    | error stop after => rfl
    | ok answer after => cases answer <;> rfl
  · rfl

/-- With more fuel a pass comes to the same, unless its fuel runs out. -/
theorem piecesFrom_approximates {each each' : Rule → Run} (all : ∀ rule, (each rule).Approximates (each' rule))
    {fuel fuel' : Nat} (enough : fuel ≤ fuel') :
    (piecesFrom world each bindings fuel).Approximates (piecesFrom world each' bindings fuel') := by
  induction fuel generalizing fuel' with
  | zero => exact .exhaust _
  | succ fuel ih =>
    obtain ⟨fuel', rfl⟩ := Nat.exists_eq_add_of_le' (Nat.zero_lt_of_lt enough)
    intro situation
    rw [piecesFrom_succ, piecesFrom_succ]
    split
    · apply Approximates.bind (firstMatch_approximates all bindings)
      intro answer
      apply Approximates.bind (.refl _)
      intro made
      exact (ih (Nat.le_of_succ_le_succ enough)).bind fun _ => .refl _
    · exact .inr rfl

theorem pieces_grows (bindings : List RuleBinding) : Grows fun fuel => pieces world fuel bindings :=
  fun _ _ enough => piecesFrom_approximates (fun _ => run_approximates enough) enough

/-- Where no visible token remains, a pass writes the shadows and ends. -/
theorem gives_pieces_of_end (ends : situation.stream.hasMore = false) :
    Gives (fun fuel => pieces world fuel bindings) situation [.shadows situation.stream.shadows]
      { situation with stream := situation.stream.skipShadows } := by
  refine ⟨1, ?_⟩
  show piecesFrom world (run world 1) bindings 1 situation = _
  rw [piecesFrom_succ, ends]
  rfl

/-- At a visible token a pass writes the shadows before it and the piece of the first match, and goes on. -/
theorem gives_pieces_of_first {made rest : List Piece} {next : Situation} (more : situation.stream.hasMore = true)
    (first : FirstMatch world bindings { situation with stream := situation.stream.skipShadows } answer middle)
    (writes : writePieces world answer middle = .ok made next)
    (others : Gives (fun fuel => pieces world fuel bindings) next rest after) :
    Gives (fun fuel => pieces world fuel bindings) situation
      ([.shadows situation.stream.shadows] ++ made ++ rest) after := by
  obtain ⟨fuel, tries⟩ := gives_firstMatch_iff.mpr first
  obtain ⟨fuel', goesOn⟩ := others
  -- The loop itself takes one unit of fuel, and the rest of the pass has one less than the tries.
  refine ⟨max fuel fuel' + 1, ?_⟩
  have tries := (firstMatch_grows bindings).eq_of_le tries (Nat.le_succ_of_le (Nat.le_max_left fuel fuel'))
  have goesOn : piecesFrom world (run world (max fuel fuel' + 1)) bindings (max fuel fuel') next = .ok rest after :=
    (piecesFrom_approximates (fun _ => run_approximates (Nat.le_succ_of_le (Nat.le_max_right ..)))
      (Nat.le_max_right ..)).eq_ok goesOn
  show piecesFrom world _ bindings _ situation = _
  rw [piecesFrom_succ, if_pos more, Stateful.bind_apply, tries]
  dsimp only
  rw [Stateful.bind_apply, writes]
  dsimp only
  rw [Stateful.bind_apply, goesOn]
  rfl

section Given

variable {each each' : Rule → Run} {tokens : List Token}

theorem stream_of_firstMatch {situation : Situation} (answers : firstMatch each bindings situation = .ok answer after) :
    after.stream = situation.stream := by
  induction bindings generalizing situation with
  | nil =>
    cases answers
    rfl
  | cons binding rest ih =>
    rw [firstMatch, Stateful.bind_apply, Attempt.apart_apply] at answers
    match outcome : each binding.rule situation with
    | .ok none middle =>
      simp only [id_eq, outcome] at answers
      rw [ih answers]
    | .ok (some found) middle =>
      simp only [id_eq, outcome] at answers
      cases answers
      rfl
    | .error stop middle =>
      simp only [id_eq, outcome] at answers
      cases answers

theorem tokens_of_copyToken {piece : Token → Piece} {made : List Piece}
    (copies : copyToken piece situation = .ok made after) : after.stream.tokens = situation.stream.tokens := by
  match read : situation.stream.read? with
  | none =>
    rw [copyToken, Stateful.bind_apply, Attempt.read?, Attempt.stream_bind_apply, read] at copies
    cases copies
    rfl
  | some (token, behind) =>
    rw [copyToken_apply piece read] at copies
    cases copies
    exact (TokenStream.Reads.single read).tokens_eq

/-- To edit a match is to stay among the tokens, if to tell of it is. -/
theorem tokens_of_editMatchTelling {tell : Notice → Attempt Unit} {made : List Piece}
    (still : ∀ {notice told later}, tell notice told = .ok () later → later.stream.tokens = told.stream.tokens)
    (writes : editMatchTelling tell world binding found situation = .ok made after) :
    after.stream.tokens = situation.stream.tokens := by
  obtain ⟨⟨⟩, told, tells, writes⟩ := Stateful.bind_eq_ok_iff.mp writes
  rw [← still tells]
  rw [Attempt.captures_bind_apply] at writes
  match edits : binding.action.apply world.store told.memory.captures found with
  | .error fault =>
    rw [edits] at writes
    cases writes
  | .ok edit =>
    rw [edits, Attempt.ofResult_ok, pure_bind] at writes
    split at writes
    · exact tokens_of_copyToken writes
    · rw [Attempt.stream_bind_apply] at writes
      match moves : told.stream.moveTo found.finish with
      | .error fault =>
        rw [moves] at writes
        cases writes
      | .ok place =>
        rw [moves] at writes
        cases writes
        exact (TokenStream.bounds_of_moveTo moves).2.2.2

theorem tokens_of_writePieces {made : List Piece} (writes : writePieces world answer situation = .ok made after) :
    after.stream.tokens = situation.stream.tokens := by
  cases answer with
  | none => exact tokens_of_copyToken writes
  | some first =>
    refine tokens_of_editMatchTelling (fun tells => ?_) writes
    cases tells
    rfl

variable (agree : ∀ rule situation, situation.stream.tokens = tokens → each rule situation = each' rule situation)
include agree

theorem firstMatch_congr (given : situation.stream.tokens = tokens) :
    firstMatch each bindings situation = firstMatch each' bindings situation := by
  induction bindings generalizing situation with
  | nil => rfl
  | cons binding rest ih =>
    rw [firstMatch, firstMatch, Stateful.bind_apply, Stateful.bind_apply, Attempt.apart_apply, Attempt.apart_apply]
    simp only [id_eq]
    rw [agree binding.rule situation given]
    match each' binding.rule situation with
    | .ok none middle => exact ih given
    | .ok (some found) middle => rfl
    | .error stop middle => rfl

/-- A pass depends on what rules answer on the given tokens only. -/
theorem piecesFrom_congr (fuel : Nat) (given : situation.stream.tokens = tokens) :
    piecesFrom world each bindings fuel situation = piecesFrom world each' bindings fuel situation := by
  induction fuel generalizing situation with
  | zero => rfl
  | succ fuel ih =>
    have behind : situation.stream.skipShadows.tokens = tokens := by
      rw [TokenStream.skipShadows, TokenStream.tokens_forward, given]
    rw [piecesFrom_succ, piecesFrom_succ, Stateful.bind_apply, Stateful.bind_apply, firstMatch_congr agree behind]
    split
    · match first : firstMatch each' bindings { situation with stream := situation.stream.skipShadows } with
      | .error stop middle => rfl
      | .ok answer middle =>
        dsimp only
        rw [Stateful.bind_apply, Stateful.bind_apply]
        match writes : writePieces world answer middle with
        | .error stop next => rfl
        | .ok made next =>
          dsimp only
          have later : next.stream.tokens = tokens := by
            rw [tokens_of_writePieces writes, stream_of_firstMatch first, behind]
          rw [Stateful.bind_apply, Stateful.bind_apply, ih later]
    · rfl

end Given

end TokenGrammar.Engine
