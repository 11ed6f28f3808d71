import TokenGrammar.Proofs.Separators

namespace TokenGrammar.Pattern

/-- The progress with which a pattern begins at a place. -/
def start (pattern : Pattern) (place : Nat) : Progress := ⟨place, Array.replicate pattern.groups none⟩

variable {pattern : Pattern} {subject : Subject} {size place tries start : Nat} {found : Nat × Nat}
  {separators : List (Nat × Nat)}

theorem matchAt?_eq_head? : pattern.matchAt? subject place = (pattern.root.ways subject (pattern.start place)).head? := by
  rw [matchAt?, Node.matches_eq_findSome?, Pattern.start]
  cases pattern.root.ways subject _ <;> rfl

/-- A match does not end before its beginning or behind the end of the text. -/
theorem bounds_of_searchFrom? (forward : subject.backward = false)
    (finds : pattern.searchFrom? subject tries place = some found)
    (within : place + tries ≤ subject.codes.size + 1) :
    place ≤ found.1 ∧ found.1 ≤ found.2 ∧ found.2 ≤ subject.codes.size := by
  obtain ⟨begins, tried⟩ := searchFrom?_bounds finds
  obtain ⟨reached, matched, ends⟩ := exists_matchAt?_of_searchFrom? finds
  rw [matchAt?_eq_head?] at matched
  obtain ⟨behind, inside⟩ := Node.ways_onward forward (List.mem_of_head? matched)
  rw [ends]
  exact ⟨begins, behind, inside (by dsimp only [Pattern.start]; omega)⟩

/-- Stretches follow one another from a place on up to the end of a text. -/
inductive Ascending (size : Nat) : Nat → List (Nat × Nat) → Prop
  | nil {start : Nat} (within : start ≤ size) : Ascending size start []
  | cons {start first last : Nat} {others : List (Nat × Nat)} (before : start ≤ first) (ordered : first ≤ last)
      (rest : Ascending size last others) : Ascending size start ((first, last) :: others)

namespace Ascending

theorem of_le {earlier : Nat} (ascending : Ascending size start separators) (before : earlier ≤ start) :
    Ascending size earlier separators := by
  cases ascending with
  | nil within => exact .nil (Nat.le_trans before within)
  | cons follows ordered rest => exact .cons (Nat.le_trans before follows) ordered rest

theorem filter (ascending : Ascending size start separators) (keeps : Nat × Nat → Bool) :
    Ascending size start (separators.filter keeps) := by
  induction ascending with
  | nil within => exact .nil within
  | @cons start first last others before ordered rest ih =>
    rw [List.filter_cons]
    split
    · exact .cons before ordered ih
    · exact ih.of_le (Nat.le_trans before ordered)

end Ascending

theorem matchesFrom_ascending (pattern : Pattern) (forward : subject.backward = false) (fuel : Nat) (before : start ≤ place)
    (within : start ≤ subject.codes.size) :
    Ascending subject.codes.size start (pattern.matchesFrom subject fuel place) := by
  induction fuel generalizing start place with
  | zero => exact .nil within
  | succ fuel ih =>
    rw [matchesFrom]
    split
    · exact .nil within
    · rename_i first last finds
      have tried : place < subject.codes.size + 1 := by
        have := searchFrom?_bounds finds
        omega
      obtain ⟨begins, ordered, inside⟩ := bounds_of_searchFrom? forward finds (by omega)
      refine .cons (Nat.le_trans before begins) ordered (ih ?_ inside)
      split <;> omega

/-- The matches in a text follow one another from its start to its end. -/
theorem allMatches_ascending (pattern : Pattern) (forward : subject.backward = false) :
    Ascending subject.codes.size 0 (pattern.allMatches subject) :=
  pattern.matchesFrom_ascending forward _ (Nat.le_refl _) (Nat.zero_le _)

end TokenGrammar.Pattern
