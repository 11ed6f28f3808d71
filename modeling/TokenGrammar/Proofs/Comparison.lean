/-
This file compares passes whose bindings are tried alike.
Notices name the rules, so the passes are compared without them.
-/

import Mathlib.Data.List.Forall2
import TokenGrammar.Proofs.Notices
import TokenGrammar.Proofs.Passes
import TokenGrammar.Proofs.Surroundings

namespace TokenGrammar

namespace Attempt

variable {α β : Type} {tokens : List Token} {less more : Attempt α} {next next' : α → Attempt β}

/-- An attempt stays among tokens when it ends at a place among them wherever it begins at one and answers. -/
def StaysAmong (tokens : List Token) (attempt : Attempt α) : Prop :=
  ∀ ⦃situation answer after⦄, situation.stream.tokens = tokens → attempt situation = .ok answer after →
    after.stream.tokens = tokens

/-- One attempt approximates another among tokens when it comes to the same from every place among them, unless its
fuel runs out. -/
def ApproximatesAmong (tokens : List Token) (less more : Attempt α) : Prop :=
  ∀ situation, situation.stream.tokens = tokens →
    (∃ after, less situation = .error .exhausted after) ∨ less situation = more situation

theorem StaysAmong.apart (view : TokenStream → TokenStream) (attempt : Attempt α) :
    (Attempt.apart view attempt).StaysAmong tokens := by
  intro situation answer after given answers
  rw [apart_apply] at answers
  split at answers
  · cases answers
    exact given
  · cases answers

theorem Approximates.among (approximates : less.Approximates more) (tokens : List Token) :
    less.ApproximatesAmong tokens more := fun situation _ => approximates situation

namespace ApproximatesAmong

theorem refl (attempt : Attempt α) : attempt.ApproximatesAmong tokens attempt := fun _ _ => .inr rfl

theorem bind (first : less.ApproximatesAmong tokens more) (stays : more.StaysAmong tokens)
    (second : ∀ answer, (next answer).ApproximatesAmong tokens (next' answer)) :
    (less >>= next).ApproximatesAmong tokens (more >>= next') := by
  intro situation given
  rw [Stateful.bind_apply, Stateful.bind_apply]
  rcases first situation given with ⟨after, exhausted⟩ | same
  · exact .inl ⟨after, by rw [exhausted]⟩
  · rw [same]
    cases answers : more situation with
    | ok answer after => exact second answer after (stays given answers)
    | error stop after => exact .inr rfl

end ApproximatesAmong

end Attempt

theorem Outcome.result_mapNotices {α : Type} (change : List Notice → List Notice) (outcome : Outcome α) :
    (Outcome.mapNotices change outcome).result = outcome.result := by
  cases outcome <;> rfl

namespace Engine

variable {world : World} {bindings bindings' : List RuleBinding} {situation after : Situation} {tokens : List Token}
  {each each' : Rule → Run} {answer answer' : Option (RuleBinding × Match)}

/-- The pieces that a pass writes at a visible token when it does not notice its matches. -/
def writeQuietly (world : World) : Option (RuleBinding × Match) → Attempt (List Piece)
  | some (binding, found) => editMatchTelling (fun _ => pure ()) world binding found
  | none => copyToken .unmatched

/-- Goes over the rest of the tokens without noticing the matches. -/
def piecesQuietly (world : World) (run : Rule → Run) (bindings : List RuleBinding) (fuel : Nat) :
    Attempt (List Piece) :=
  piecesTelling (fun _ => pure ()) world run bindings fuel

theorem piecesQuietly_succ (each : Rule → Run) (fuel : Nat) :
    piecesQuietly world each bindings (fuel + 1) situation =
      if situation.stream.hasMore then
        (firstMatch each bindings >>= fun answer => writeQuietly world answer >>= fun made =>
          piecesQuietly world each bindings fuel >>= fun rest =>
            pure ([Piece.shadows situation.stream.shadows] ++ made ++ rest))
          { situation with stream := situation.stream.skipShadows }
      else .ok [Piece.shadows situation.stream.shadows] { situation with stream := situation.stream.skipShadows } := by
  rw [piecesQuietly, piecesTelling, Attempt.stream_bind_apply, Attempt.goTo_bind_apply]
  split
  · rw [Stateful.bind_apply, Stateful.bind_apply]
    cases firstMatch each bindings { situation with stream := situation.stream.skipShadows } with
    | error stop after => rfl
    | ok answer after => cases answer <;> rfl
  · rfl

/-- A quiet pass is in step with one that notices its matches. -/
theorem piecesQuietly_inStep (world : World) (fuel : Nat) (bindings : List RuleBinding) :
    Attempt.InStep (List.filter fun notice => !notice.isTrace) (pieces world fuel bindings)
      (piecesQuietly world (Rule.run world fuel) bindings fuel) := by
  have composable := Attempt.inStep_composable (List.filter fun notice => !notice.isTrace)
  have silenced (notice : Notice) := Attempt.inStep_shown (fun notice => !notice.isTrace) notice
  have runs (rule : Rule) : Attempt.InStep (List.filter fun notice => !notice.isTrace) (rule.run world fuel)
      (rule.run world fuel) := by
    rw [← Rule.runIn_ofWorld]
    refine composable.runIn (fun _ => (Surroundings.ofWorld world Attempt.notice).ask) (fun _ => Attempt.notice)
      (fun _ _ => rfl) (fun notice rules => ?_) (fun _ _ => rfl) (Run.leaveToCaller_inStep _) rule fuel
    have kept := silenced notice
    rwa [Notice.isTrace_of_rules rules] at kept
  let tell (quiet : Bool) (notice : Notice) : Attempt Unit := if quiet then pure () else Attempt.notice notice
  exact composable.piecesTelling tell (fun _ => Rule.run world fuel) (fun _ _ _ _ => silenced (.ruleMatched ..)) runs
    fuel

/-- A pass comes to what it comes to quietly. -/
theorem result_process_eq (engine : Engine) (world : World) (fuel : Nat) (tokens : List Token) :
    (engine.process world fuel tokens).result = Outcome.result (piecesQuietly world (Rule.run world fuel)
      engine.bindings fuel { stream := .ofTokens tokens, memory := {} }) := by
  have inStep : piecesQuietly world (Rule.run world fuel) engine.bindings fuel
      { stream := .ofTokens tokens, memory := {} } = _ :=
    piecesQuietly_inStep world fuel engine.bindings { stream := .ofTokens tokens, memory := {} }
  rw [inStep, Outcome.result_mapNotices, process]
  cases pieces world fuel engine.bindings { stream := .ofTokens tokens, memory := {} } <;> rfl

theorem writeQuietly_staysAmong (world : World) (answer : Option (RuleBinding × Match)) :
    (writeQuietly world answer).StaysAmong tokens := by
  intro situation made after given writes
  cases answer with
  | none => exact (tokens_of_copyToken writes).trans given
  | some first =>
    have edits : editMatchTelling (fun _ => pure ()) world first.1 first.2 situation = .ok made after := writes
    refine (tokens_of_editMatchTelling (fun tells => ?_) edits).trans given
    cases tells
    rfl

/-- A binding is tried like another one among tokens when their actions are the same and to try its rule approximates to
try the rule of the other. -/
structure TriedAlike (tokens : List Token) (each each' : Rule → Run) (binding binding' : RuleBinding) : Prop where
  action_eq : binding.action = binding'.action
  tries : (Attempt.apart id (each binding.rule)).ApproximatesAmong tokens (Attempt.apart id (each' binding'.rule))

theorem TriedAlike.refl {fuel fuel' : Nat} (enough : fuel ≤ fuel') (binding : RuleBinding) :
    TriedAlike tokens (Rule.run world fuel) (Rule.run world fuel') binding binding :=
  ⟨rfl, ((Rule.run_approximates enough).apart id).among tokens⟩

/-- Two first matches are edited alike when they are the same match and their bindings have the same action. -/
def EditedAlike (first first' : RuleBinding × Match) : Prop := first.1.action = first'.1.action ∧ first.2 = first'.2

theorem writeQuietly_eq (edited : Option.Rel EditedAlike answer answer') :
    writeQuietly world answer = writeQuietly world answer' := by
  cases edited with
  | none => rfl
  | @some first first' same =>
    obtain ⟨binding, found⟩ := first
    obtain ⟨binding', found'⟩ := first'
    obtain ⟨action_eq, rfl⟩ : binding.action = binding'.action ∧ found = found' := same
    simp only [writeQuietly, editMatchTelling, action_eq]

/-- What follows the first of several matches is approximated where it is for matches that are edited alike. -/
theorem firstMatch_bind_among {β : Type} {next next' : Option (RuleBinding × Match) → Attempt β}
    (alike : List.Forall₂ (TriedAlike tokens each each') bindings bindings')
    (follows : ∀ answer answer', Option.Rel EditedAlike answer answer' →
      (next answer).ApproximatesAmong tokens (next' answer')) :
    (firstMatch each bindings >>= next).ApproximatesAmong tokens (firstMatch each' bindings' >>= next') := by
  induction alike with
  | nil => exact follows none none .none
  | cons first rest ih =>
    rw [firstMatch, firstMatch, bind_assoc, bind_assoc]
    refine first.tries.bind (.apart ..) fun found => ?_
    cases found with
    | none => exact ih
    | some found => exact follows _ _ (.some ⟨first.action_eq, rfl⟩)

theorem piecesQuietly_among (world : World) (alike : List.Forall₂ (TriedAlike tokens each each') bindings bindings')
    {fuel fuel' : Nat} (enough : fuel ≤ fuel') :
    (piecesQuietly world each bindings fuel).ApproximatesAmong tokens (piecesQuietly world each' bindings' fuel') := by
  induction fuel generalizing fuel' with
  | zero => exact (Attempt.Approximates.exhaust _).among tokens
  | succ fuel ih =>
    obtain ⟨fuel', rfl⟩ := Nat.exists_eq_add_of_le' (Nat.zero_lt_of_lt enough)
    intro situation given
    have behind : situation.stream.skipShadows.tokens = tokens := by
      rw [TokenStream.skipShadows, TokenStream.tokens_forward, given]
    rw [piecesQuietly_succ, piecesQuietly_succ]
    split
    · refine firstMatch_bind_among alike (fun answer answer' edited => ?_) _ behind
      rw [writeQuietly_eq edited]
      refine Attempt.ApproximatesAmong.bind (.refl _) (writeQuietly_staysAmong world answer') fun made => ?_
      intro middle among
      have goesOn := ih (Nat.le_of_succ_le_succ enough) middle among
      rw [Stateful.bind_apply, Stateful.bind_apply]
      rcases goesOn with ⟨after, exhausted⟩ | same
      · exact .inl ⟨after, by rw [exhausted]⟩
      · exact .inr (by rw [same])
    · exact .inr rfl

/-- A pass comes to what a pass with other bindings comes to that are tried alike, unless its fuel runs out. -/
theorem result_process_of_alike {fuel fuel' : Nat} (enough : fuel ≤ fuel')
    (alike : List.Forall₂ (TriedAlike tokens (Rule.run world fuel) (Rule.run world fuel')) bindings bindings') :
    (process ⟨bindings⟩ world fuel tokens).result = .error .exhausted ∨
      (process ⟨bindings⟩ world fuel tokens).result = (process ⟨bindings'⟩ world fuel' tokens).result := by
  rw [result_process_eq, result_process_eq]
  have start : (TokenStream.ofTokens tokens).tokens = tokens := TokenStream.tokens_ofTokens tokens
  rcases piecesQuietly_among world alike enough { stream := .ofTokens tokens, memory := {} } start with
    ⟨after, exhausted⟩ | same
  · exact .inl (by rw [exhausted]; rfl)
  · exact .inr (by rw [same])

/-- A pass comes to one result at most, however much fuel it has. -/
theorem result_process_unique {engine : Engine} {fuel fuel' : Nat}
    (finite : (engine.process world fuel tokens).result ≠ .error .exhausted)
    (finite' : (engine.process world fuel' tokens).result ≠ .error .exhausted) :
    (engine.process world fuel tokens).result = (engine.process world fuel' tokens).result := by
  have alike {less more : Nat} (enough : less ≤ more) : List.Forall₂
      (TriedAlike tokens (Rule.run world less) (Rule.run world more)) engine.bindings engine.bindings :=
    List.forall₂_same.mpr fun binding _ => .refl enough binding
  rcases Nat.le_total fuel fuel' with enough | enough
  · exact (result_process_of_alike enough (alike enough)).resolve_left finite
  · exact ((result_process_of_alike enough (alike enough)).resolve_left finite').symm

end Engine

end TokenGrammar
