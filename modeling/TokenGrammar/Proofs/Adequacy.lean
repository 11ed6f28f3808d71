import TokenGrammar.Proofs.Derivation.Completeness

namespace TokenGrammar.Rule

open Run

/-- An expression matches from one index to another exactly where it derives the place at the other index, and it
does not match exactly where it derives failure, whatever the memory is. -/
theorem match_iff_derives (builtIn : rule.BuiltIn world) (expression : rule.Throughout world IsExpression)
    (stream : TokenStream) (memory : Memory) :
    (∀ finish : Nat,
      (∃ found after, rule.Yields world ⟨stream, memory⟩ (some found) after ∧
        found.start = .ofNat stream.index ∧ found.finish = .ofNat finish) ↔
      ∃ place, Derives world rule stream (some place) ∧ place.index = finish) ∧
    ((∃ after, rule.Yields world ⟨stream, memory⟩ none after) ↔ Derives world rule stream none) := by
  have fits := fits_of_builtIn builtIn expression
  have decided {found : Option Match} {after : Situation} (yields : rule.Yields world ⟨stream, memory⟩ found after) :
      Settles stream found after ∧ Derives world rule stream (found.map fun _ => after.stream) :=
    Attempt.Gives.meets yields fun fuel => run_decides builtIn expression fuel ⟨stream, memory⟩
  constructor
  · intro finish
    constructor
    · intro given
      obtain ⟨found, after, yields, start_eq, finish_eq⟩ := given
      obtain ⟨settles, derives⟩ := decided yields
      have spans : found.Spans stream after.stream := settles
      exact ⟨after.stream, derives, Number.ofNat_injective (spans.finish_eq.symm.trans finish_eq)⟩
    · intro given
      obtain ⟨place, derives, rfl⟩ := given
      obtain ⟨found, memory', yields⟩ := derives.performs fits memory
      have spans : found.Spans stream place := (decided yields).1
      exact ⟨found, _, yields, spans.start_eq, spans.finish_eq⟩
  · constructor
    · intro given
      obtain ⟨after, yields⟩ := given
      exact (decided yields).2
    · intro derives
      exact derives.performs fits memory

theorem nested_isExpression : Brackets.nested.Throughout Brackets.world IsExpression := by
  apply Brackets.nested_throughout
  simp [Brackets.members, Brackets.nested, Brackets.pair, Brackets.taking, IsExpression]

theorem nested_derived_to_end :
    Brackets.nested.BuiltIn Brackets.world ∧ Brackets.nested.Throughout Brackets.world IsExpression ∧
      ∃ place, Derives Brackets.world Brackets.nested Brackets.stream (some place) ∧ place.index = 7 := by
  obtain ⟨found, answers, finish_eq, -⟩ := Brackets.nested_answers
  obtain ⟨after, yields⟩ := exists_yields_of_answer answers
  have spans : found.Spans Brackets.stream after.stream := Brackets.nested_builtIn.settles yields
  have adequate := match_iff_derives Brackets.nested_builtIn nested_isExpression Brackets.stream {}
  exact ⟨Brackets.nested_builtIn, nested_isExpression,
    (adequate.1 7).mp ⟨found, after, yields, spans.start_eq, finish_eq⟩⟩

end TokenGrammar.Rule
