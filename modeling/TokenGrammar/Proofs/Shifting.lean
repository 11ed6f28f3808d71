import TokenGrammar.Proofs.Splitting

namespace TokenGrammar

namespace Number

/-- Counts are added to a small whole number exactly. -/
theorem finite_add_ofNat {start : Int} {count : Nat} (small : (start + count).natAbs ≤ exactLimit) :
    finite (start : Rat) + ofNat count = finite ((start + count : Int) : Rat) := by
  have cast : (start : Rat) + ((count : Nat) : Rat) = ((start + count : Int) : Rat) := by
    rw [Rat.intCast_add, Rat.intCast_natCast]
  show ofRat ((start : Rat) + ((count : Nat) : Rat)) = _
  rw [cast, ofRat, if_pos ⟨Rat.den_intCast _, by rwa [Rat.num_intCast]⟩]

end Number

namespace Position

variable {position : Position} {text front back rest : Text} {absolute first second : Nat}

/-- Whether two counts come to the same offset when they are added one after the other and when they are added at once. -/
def AddsUp (position : Position) (first second : Nat) : Prop :=
  position.absoluteCharacter + .ofNat first + .ofNat second = position.absoluteCharacter + .ofNat (first + second)

/-- Two shifts in turn and one shift at once lead together when they come to the same place of the same line, and to the
same position exactly if the counts add up. -/
structure LeadTogether (position : Position) (first second : Nat) (inTurn atOnce : Position) : Prop where
  line_eq : inTurn.line = atOnce.line
  characterInLine_eq : inTurn.characterInLine = atOnce.characterInLine
  eq_iff : inTurn = atOnce ↔ position.AddsUp first second

theorem addsUp_of_exact (counted : position.absoluteCharacter = .ofNat absolute)
    (exact : absolute + first + second ≤ Number.exactLimit) : position.AddsUp first second := by
  rw [AddsUp, counted, Number.ofNat_add_ofNat (by omega), Number.ofNat_add_ofNat exact,
    Number.ofNat_add_ofNat (by omega), Nat.add_assoc]

theorem addsUp_unpositioned (small : first + second ≤ Number.exactLimit) : unpositioned.AddsUp first second := by
  have one : 1 ≤ Number.exactLimit := Number.twoPow_pos 53
  have start : unpositioned.absoluteCharacter = .finite ((-1 : Int) : Rat) := rfl
  rw [AddsUp, start, Number.finite_add_ofNat (by omega), Number.finite_add_ofNat (by omega),
    Number.finite_add_ofNat (by omega), Int.natCast_add, Int.add_assoc]

/-- Shifts in turn and at once succeed from finite coordinates, and lead together. -/
theorem IsFinite.exists_shifts (finite : position.IsFinite) (behind : rest.codes = text.codes.drop first)
    (small : first + second ≤ Number.exactLimit) :
    ∃ between inTurn atOnce, position.shift text (.ofNat first) = .ok between ∧
      between.shift rest (.ofNat second) = .ok inTurn ∧
      position.shift text (.ofNat (first + second)) = .ok atOnce ∧
      position.LeadTogether first second inTurn atOnce := by
  rcases finite with rfl | ⟨line, column, absolute, lines, columns, all, rfl⟩
  · refine ⟨unpositioned, unpositioned, unpositioned, shift_unpositioned .., shift_unpositioned ..,
      shift_unpositioned .., rfl, rfl, ?_⟩
    exact iff_of_true rfl (addsUp_unpositioned small)
  · obtain ⟨line', column', lines', columns', front⟩ := exists_foldl_nextPlace (text.codes.take first) lines columns
    obtain ⟨line'', column'', -, -, back⟩ := exists_foldl_nextPlace (rest.codes.take second) lines' columns'
    obtain ⟨middle, middles, reaches⟩ := Number.exists_ofNat_add_ofNat all (show first ≤ Number.exactLimit by omega)
    obtain ⟨last, -, ends⟩ := Number.exists_ofNat_add_ofNat middles (show second ≤ Number.exactLimit by omega)
    obtain ⟨sum, -, sums⟩ := Number.exists_ofNat_add_ofNat all small
    have whole : (text.codes.take (first + second)).foldl nextPlace (.ofNat line, .ofNat column) =
        (.ofNat line'', .ofNat column'') := by
      rw [List.take_add, List.foldl_append, front, ← behind, back]
    refine ⟨.ofCounts line' column' middle, .ofCounts line'' column'' last, .ofCounts line'' column'' sum, ?_, ?_, ?_,
      rfl, rfl, ?_⟩
    · rw [shift_ofCounts, front, reaches, create_ofNat]
    · rw [shift_ofCounts, back, ends, create_ofNat]
    · rw [shift_ofCounts, whole, sums, create_ofNat]
    · have offset : (ofCounts line column absolute).absoluteCharacter = .ofNat absolute := rfl
      rw [AddsUp, offset, reaches, ends, sums]
      constructor
      · exact congrArg absoluteCharacter
      · intro same
        rw [Number.ofNat_injective same]

/-- From any position that was made, shifting over a text by two counts in turn leads to where shifting by their sum
does. The end of a text that is cut between two characters is the end of its back at the position shifted over its front.
Both hold of the line and the place in it, and of the offset if the sums with it come to the same, as exact ones do. -/
theorem shift_additive (made : position.IsMade) (bounded : text.length ≤ Number.exactLimit) :
    (∀ first second, first + second ≤ text.length → ∃ between inTurn atOnce,
      position.shift text (.ofNat first) = .ok between ∧
        between.shift (text.afterCodes first) (.ofNat second) = .ok inTurn ∧
        position.shift text (.ofNat (first + second)) = .ok atOnce ∧
        position.LeadTogether first second inTurn atOnce) ∧
    (∀ front back : Text, text = front ++ back → text.codes = front.codes ++ back.codes → back.isEmpty = false →
      ∃ between inTurn atOnce, position.shift text (.ofNat front.length) = .ok between ∧
        between.endOf back = .ok inTurn ∧ position.endOf text = .ok atOnce ∧
        position.LeadTogether front.length (back.length - 1) inTurn atOnce) ∧
    ∀ absolute first second : Nat, position.absoluteCharacter = .ofNat absolute →
      absolute + first + second ≤ Number.exactLimit → position.AddsUp first second := by
  refine ⟨?_, ?_, fun absolute first second => addsUp_of_exact⟩
  · intro first second inside
    exact made.isFinite.exists_shifts (text.codes_afterCodes first) (Nat.le_trans inside bounded)
  · intro front back _ codes_eq filled
    have behind : back.codes = text.codes.drop front.length := by rw [codes_eq, Text.length, List.drop_left]
    have positive : 0 < back.length := by
      rw [Text.length, List.length_pos_iff]
      intro none
      rw [← back.ofCodes_codes, none] at filled
      cases filled
    have size : text.length - 1 = front.length + (back.length - 1) := by
      rw [← Nat.add_sub_assoc positive, Text.length, codes_eq, List.length_append]
      rfl
    have inside : front.length + (back.length - 1) ≤ Number.exactLimit := by omega
    rw [endOf, size]
    exact made.isFinite.exists_shifts behind inside

/-- Over a pair of units, a line feed and two more characters, in turn and at once; and the end of the same text, cut
behind the line feed. -/
theorem shifts_add_up_over_lineFeed :
    (ofCounts 2 3 10).IsMade ∧ Brackets.farBracket.value.length ≤ Number.exactLimit ∧
      (∃ between, (ofCounts 2 3 10).shift Brackets.farBracket.value (.ofNat 2) = .ok between ∧
        between.shift (Brackets.farBracket.value.afterCodes 2) (.ofNat 1) = .ok (ofCounts 3 1 13)) ∧
      ∃ between, (ofCounts 2 3 10).shift Brackets.farBracket.value (.ofNat 2) = .ok between ∧
        between.endOf "-(" = .ok (ofCounts 3 1 13) ∧
        (ofCounts 2 3 10).endOf Brackets.farBracket.value = .ok (ofCounts 3 1 13) := by
  have made : (ofCounts 2 3 10).IsMade :=
    .inr ⟨.ofNat 2, .ofNat 3, .ofNat 10, Number.isBinary64_ofNat (by decide), Number.isBinary64_ofNat (by decide),
      Number.isBinary64_ofNat (by decide), rfl⟩
  have bounded : Brackets.farBracket.value.length ≤ Number.exactLimit := by decide
  have computed : (ofCounts 2 3 10).shift Brackets.farBracket.value (.ofNat 3) = .ok (ofCounts 3 1 13) :=
    @shift_eq_behind 2 3 10 [0x1F600, 0xA, 0x2D] [0x28] _ (by decide) (by decide) (by decide) (by decide)
  obtain ⟨shifts, cuts, exact⟩ := shift_additive made bounded
  refine ⟨made, bounded, ?_, ?_⟩
  · obtain ⟨between, inTurn, atOnce, reaches, ends, whole, together⟩ := shifts 2 1 (by decide)
    refine ⟨between, reaches, ?_⟩
    rw [ends, together.eq_iff.mpr (exact 10 2 1 rfl (by decide)), ← whole]
    exact computed
  · obtain ⟨between, inTurn, atOnce, reaches, ends, whole, together⟩ :=
      cuts "😀\n" "-(" (by decide) (by decide) (by decide)
    have last : (ofCounts 2 3 10).endOf Brackets.farBracket.value = .ok (ofCounts 3 1 13) := computed
    refine ⟨between, reaches, ?_, last⟩
    rw [ends, together.eq_iff.mpr (exact 10 2 1 rfl (by decide)), ← whole]
    exact last

/-- Shifts do not add up at the largest offset that is counted exactly, and the end of a character that is a pair of units
is not the end of its second unit behind the first. -/
theorem not_shift_additive :
    (¬ ∀ (position between inTurn atOnce : Position) (text : Text) (first second : Nat), position.IsMade →
      position.isPositioned = true → first + second ≤ text.length → position.shift text (.ofNat first) = .ok between →
      between.shift (text.afterCodes first) (.ofNat second) = .ok inTurn →
      position.shift text (.ofNat (first + second)) = .ok atOnce → inTurn = atOnce) ∧
    ¬ ∀ (position between inTurn atOnce : Position) (front back : Text), position.IsMade →
      position.isPositioned = true → front.isEmpty = false → back.isEmpty = false →
      position.shift (front ++ back) (.ofNat front.length) = .ok between → between.endOf back = .ok inTurn →
      position.endOf (front ++ back) = .ok atOnce → inTurn = atOnce := by
  have made {offset : Nat} (exact : offset ≤ Number.exactLimit) : (ofCounts 0 0 offset).IsMade :=
    .inr ⟨.ofNat 0, .ofNat 0, .ofNat offset, Number.isBinary64_ofNat (by decide), Number.isBinary64_ofNat (by decide),
      Number.isBinary64_ofNat exact, create_ofNat ..⟩
  constructor
  · intro adds
    have last : Number.ofNat Number.exactLimit + .ofNat 1 = .ofNat Number.exactLimit := by decide +kernel
    have next : Number.ofNat Number.exactLimit + .ofNat (1 + 1) = .ofNat (Number.exactLimit + 2) := by decide +kernel
    have one : ((Text.ofString "ab").codes.take 1).foldl nextPlace (.ofNat 0, .ofNat 0) = (.ofNat 0, .ofNat 1) := by
      decide +kernel
    have other : (((Text.ofString "ab").afterCodes 1).codes.take 1).foldl nextPlace (.ofNat 0, .ofNat 1) =
        (.ofNat 0, .ofNat 2) := by decide +kernel
    have both : ((Text.ofString "ab").codes.take (1 + 1)).foldl nextPlace (.ofNat 0, .ofNat 0) =
        (.ofNat 0, .ofNat 2) := by decide +kernel
    have same := adds (ofCounts 0 0 Number.exactLimit) (ofCounts 0 1 Number.exactLimit)
      (ofCounts 0 2 Number.exactLimit) (ofCounts 0 2 (Number.exactLimit + 2)) "ab" 1 1 (made (Nat.le_refl _))
      (isPositioned_ofCounts ..) (by decide) (by rw [shift_ofCounts, last, one, create_ofNat])
      (by rw [shift_ofCounts, last, other, create_ofNat]) (by rw [shift_ofCounts, next, both, create_ofNat])
    have offsets : Number.ofNat Number.exactLimit = .ofNat (Number.exactLimit + 2) := congrArg absoluteCharacter same
    have := Number.ofNat_injective offsets
    omega
  · intro ends
    have start := made (Nat.zero_le Number.exactLimit)
    have behind : (ofCounts 0 0 0).shift (⟨[0xD83D]⟩ ++ ⟨[0xDE00]⟩) (.ofNat 1) = .ok (ofCounts 0 1 1) :=
      @shift_eq_behind 0 0 0 [0x1F600] [] _ (by decide) (by decide) (by decide) (by decide)
    have unit : (ofCounts 0 1 1).endOf ⟨[0xDE00]⟩ = .ok (ofCounts 0 1 1) :=
      @shift_eq_behind 0 1 1 [] [0xDE00] _ (by decide) (by decide) (by decide) (by decide)
    have whole : (ofCounts 0 0 0).endOf (⟨[0xD83D]⟩ ++ ⟨[0xDE00]⟩) = .ok (ofCounts 0 0 0) := start.shift_zero _
    have same := ends _ _ _ _ ⟨[0xD83D]⟩ ⟨[0xDE00]⟩ start (isPositioned_ofCounts ..) rfl rfl behind unit whole
    exact absurd same (by decide)

end Position

end TokenGrammar
