import TokenGrammar.Proofs.Fuel
import TokenGrammar.Proofs.Soundness

namespace TokenGrammar.Rule

variable {world : World} {rule : Rule} {situation after : Situation} {found : Option Match}

/-- A rule is sound when its runs are, with whatever fuel. Built-in rules are, and a caller's rule is if it leaves the
stream at the end of the match that it answers and alone without one. -/
def IsSound (world : World) (rule : Rule) : Prop := ∀ fuel, (rule.run world fuel).Sound

theorem BuiltIn.isSound (builtIn : rule.BuiltIn world) : rule.IsSound world := run_sound builtIn

theorem isSound_of_builtIn {rules : List Rule} (builtIn : ∀ member ∈ rules, member.BuiltIn world) :
    ∀ member ∈ rules, member.IsSound world := fun member inside => (builtIn member inside).isSound

theorem IsSound.settles (sound : rule.IsSound world) (yields : rule.Yields world situation found after) :
    Run.Settles situation.stream found after :=
  Attempt.Gives.meets yields fun fuel => sound fuel situation

/-- A sound rule answers from a situation exactly when it terminates from it. -/
theorem IsSound.terminates_iff (sound : rule.IsSound world) :
    rule.Terminates world situation ↔ ∃ found after, rule.Yields world situation found after := by
  constructor
  · intro given
    obtain ⟨fuel, finished⟩ := given
    have meets := sound fuel situation
    match outcome : rule.run world fuel situation, meets with
    | .ok found after, _ => exact ⟨found, after, fuel, outcome⟩
    | .error .exhausted after, _ => exact absurd outcome (finished after)
  · intro given
    obtain ⟨found, after, fuel, answers⟩ := given
    exact ⟨fuel, by simp [answers]⟩

theorem BuiltIn.settles (builtIn : rule.BuiltIn world) (yields : rule.Yields world situation found after) :
    Run.Settles situation.stream found after := builtIn.isSound.settles yields

/-- A built-in rule answers from a situation exactly when it terminates from it. -/
theorem BuiltIn.terminates_iff (builtIn : rule.BuiltIn world) :
    rule.Terminates world situation ↔ ∃ found after, rule.Yields world situation found after :=
  builtIn.isSound.terminates_iff

/-- How an answer and the stream that it leaves account for the stream before. -/
def Accounts (before : TokenStream) : Option Match → TokenStream → Prop
  | none, after => after = before
  | some found, after =>
    found.start = .ofNat before.index ∧ found.finish = .ofNat after.index ∧ before.index ≤ after.index ∧
      after.index ≤ before.size ∧ after.tokens = before.tokens

/-- A built-in rule that terminates stops with no fault, whatever the fuel, and its answer accounts for the
stream. -/
theorem match_safe (builtIn : rule.BuiltIn world) (terminates : rule.Terminates world situation) :
    (∀ fuel fault after, rule.run world fuel situation ≠ .error (.fault fault) after) ∧
      ∃ found after, rule.Yields world situation found after ∧ Accounts situation.stream found after.stream := by
  refine ⟨?_, ?_⟩
  · intro fuel fault after faulty
    have meets := run_sound builtIn fuel situation
    -- No fault meets any condition.
    rw [faulty] at meets
    exact meets
  · obtain ⟨found, after, yields⟩ := builtIn.terminates_iff.mp terminates
    refine ⟨found, after, yields, ?_⟩
    have settles := builtIn.settles yields
    cases found with
    | none => exact settles
    | some found =>
      have spans : found.Spans situation.stream after.stream := settles
      exact ⟨spans.start_eq, spans.finish_eq, spans.reads.index_le, spans.reads.index_le_size, spans.reads.tokens_eq⟩

theorem nested_terminates_and_accounts :
    Brackets.nested.BuiltIn Brackets.world ∧
      Brackets.nested.Terminates Brackets.world { stream := Brackets.stream, memory := {} } ∧
      ∃ found after,
        Brackets.nested.Yields Brackets.world { stream := Brackets.stream, memory := {} } (some found) after ∧
          Accounts Brackets.stream (some found) after.stream := by
  obtain ⟨found, answers, -⟩ := Brackets.nested_answers
  obtain ⟨after, yields⟩ := exists_yields_of_answer answers
  have terminates := Brackets.nested_builtIn.terminates_iff.mpr ⟨_, _, yields⟩
  obtain ⟨-, found', after', yields', accounts⟩ := match_safe Brackets.nested_builtIn terminates
  obtain ⟨rfl, rfl⟩ := yields'.unique yields
  exact ⟨Brackets.nested_builtIn, terminates, found, after', yields, accounts⟩

/-- A match takes exactly the visible tokens of its stretch, in their order; unless it is empty it ends just behind
a visible token; and it is empty exactly when it takes nothing. -/
theorem match_exact {found : Match} (builtIn : rule.BuiltIn world)
    (yields : rule.Yields world situation (some found) after) :
    ∃ start finish : Nat, found.start = .ofNat start ∧ found.finish = .ofNat finish ∧
      start ≤ finish ∧ finish ≤ situation.stream.size ∧
      found.tokens = (situation.stream.slice found.start found.finish).filter Token.isVisible ∧
      (finish = start ∨ ∃ last, situation.stream.tokens[finish - 1]? = some last ∧ last.isVisible) ∧
      (found.isZeroWidth = true ↔ found.tokens = []) := by
  have spans : found.Spans situation.stream after.stream := builtIn.settles yields
  refine ⟨_, _, spans.start_eq, spans.finish_eq, spans.reads.index_le, spans.reads.index_le_size, ?_, ?_, ?_⟩
  · rw [spans.start_eq, spans.finish_eq, TokenStream.slice_ofNat spans.reads.index_le spans.reads.index_le_size]
    exact spans.reads.eq_filter
  · rcases Nat.eq_or_lt_of_le spans.reads.index_le with stays | moves
    · exact .inl stays.symm
    · exact .inr (spans.reads.last_visible (Nat.ne_of_gt moves))
  · simp [spans.isZeroWidth_eq]

theorem nested_takes_visible :
    Brackets.nested.BuiltIn Brackets.world ∧
      ∃ found after,
        Brackets.nested.Yields Brackets.world { stream := Brackets.stream, memory := {} } (some found) after ∧
          found.tokens = (Brackets.stream.slice found.start found.finish).filter Token.isVisible ∧
          found.tokens.length = 4 := by
  obtain ⟨found, answers, -, size⟩ := Brackets.nested_answers
  obtain ⟨after, yields⟩ := exists_yields_of_answer answers
  obtain ⟨_, _, _, _, _, _, tokens_eq, _, _⟩ := match_exact Brackets.nested_builtIn yields
  exact ⟨Brackets.nested_builtIn, found, after, yields, tokens_eq, size⟩

end TokenGrammar.Rule
