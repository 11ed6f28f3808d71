import TokenGrammar.Proofs.Algebra.Going
import TokenGrammar.Proofs.Counting

namespace TokenGrammar

def Range.exactly (count : Nat) : Range := ⟨count, some count, fun _ reached => Nat.le_of_eq (Option.some.inj reached)⟩

theorem Range.exactly_succ_after (count : Nat) : (Range.exactly (count + 1)).after 1 = .exactly count := rfl

namespace Rule

variable {world : World} {rule : Rule} {captures : Captures} {place : TokenStream} {result : Option TokenStream}
  {range : Range}

theorem room_of_two_le (two : ∀ most, range.most = some most → 2 ≤ most) :
    range.most ≠ some 0 ∧ (range.after 1).most ≠ some 0 := by
  constructor
  · intro full
    exact absurd (two 0 full) (by decide)
  · intro full
    obtain ⟨most, known, same⟩ := Option.map_eq_some_iff.mp full
    have := two most known
    omega

section Steady

variable (steady : rule.IsSteady world)
include steady

/-- A rule in front of the rest of its repetitions ends where it fails or stays, as the repetition does. -/
theorem goesTo_sequence_rest_iff (two : ∀ most, range.most = some most → 2 ≤ most) :
    (sequence [rule, repeated rule (range.after 1) false]).GoesTo world captures place result ↔
      (rule.GoesTo world captures place none ∧ result = none) ∨
      (rule.GoesTo world captures place (some place) ∧ result = some place) ∨
      ∃ next, rule.GoesTo world captures place (some next) ∧ place.index < next.index ∧
        (repeated rule (range.after 1) false).GoesTo world captures next result := by
  obtain ⟨-, room⟩ := room_of_two_le two
  rw [goesTo_sequence_pair_iff steady steady.repeated]
  refine or_congr_right ?_
  constructor
  · intro goes
    obtain ⟨next, begins, goesOn⟩ := goes
    rcases steady.stays_or_moves begins with rfl | moves
    · -- Run again at the same place, the rule stays again, so that the rest of the repetitions ends there.
      have stays := (goesTo_repeated_iff steady room).mpr (.inr (.inl ⟨begins, rfl⟩))
      exact .inl ⟨begins, goesOn.unique stays⟩
    · exact .inr ⟨next, begins, moves, goesOn⟩
  · intro goes
    rcases goes with ⟨stays, rfl⟩ | ⟨next, begins, -, goesOn⟩
    · exact ⟨place, stays, (goesTo_repeated_iff steady room).mpr (.inr (.inl ⟨stays, rfl⟩))⟩
    · exact ⟨next, begins, goesOn⟩

/-- A repetition that allows one goes where its rule goes, and what it requires decides where the rule fails. -/
theorem goesTo_repeated_once_iff (once : range.most = some 1) :
    (repeated rule range false).GoesTo world captures place result ↔
      (rule.GoesTo world captures place none ∧ result = if range.least = 0 then some place else none) ∨
      ∃ next, rule.GoesTo world captures place (some next) ∧ result = some next := by
  have room : range.most ≠ some 0 := by simp [once]
  have full : (range.after 1).most = some 0 := by simp [Range.after, once]
  rw [goesTo_repeated_iff steady room]
  simp only [goesTo_repeated_full steady full]
  refine or_congr_right ?_
  constructor
  · intro goes
    rcases goes with ⟨stays, rfl⟩ | ⟨next, begins, -, rfl⟩
    · exact ⟨place, stays, rfl⟩
    · exact ⟨next, begins, rfl⟩
  · intro goes
    obtain ⟨next, begins, rfl⟩ := goes
    rcases steady.stays_or_moves begins with rfl | moves
    · exact .inl ⟨begins, rfl⟩
    · exact .inr ⟨next, begins, moves, rfl⟩

theorem goesTo_unrolled_iff (required : 1 ≤ range.least) (two : ∀ most, range.most = some most → 2 ≤ most) :
    (repeated rule range false).GoesTo world captures place result ↔
      (sequence [rule, repeated rule (range.after 1) false]).GoesTo world captures place result := by
  rw [goesTo_repeated_iff steady (room_of_two_le two).1, goesTo_sequence_rest_iff steady two,
    if_neg (Nat.ne_of_gt required)]

theorem goesTo_unrolled_optional_iff (unrequired : range.least = 0)
    (two : ∀ most, range.most = some most → 2 ≤ most) :
    (repeated rule range false).GoesTo world captures place result ↔
      (optional (sequence [rule, repeated rule (range.after 1) false]) false).GoesTo world captures place result := by
  have steadyRest : (sequence [rule, repeated rule (range.after 1) false]).IsSteady world :=
    .sequence (steady_pair steady steady.repeated)
  have unrequiredRest : (range.after 1).least = 0 := by simp [Range.after, unrequired]
  rw [goesTo_repeated_iff steady (room_of_two_le two).1, goesTo_optional_iff steadyRest, if_pos unrequired]
  simp only [goesTo_sequence_rest_iff steady two]
  constructor
  · intro goes
    rcases goes with ⟨fails, rfl⟩ | ⟨stays, rfl⟩ | ⟨next, begins, moves, goesOn⟩
    · exact ⟨none, .inl ⟨fails, rfl⟩, rfl⟩
    · exact ⟨some place, .inr (.inl ⟨stays, rfl⟩), rfl⟩
    · cases result with
      | none => exact absurd goesOn (not_goesTo_none_of_least_eq_zero steady unrequiredRest)
      | some finish => exact ⟨some finish, .inr (.inr ⟨next, begins, moves, goesOn⟩), rfl⟩
  · intro holds
    obtain ⟨tried, ⟨fails, rfl⟩ | ⟨stays, rfl⟩ | ⟨next, begins, moves, goesOn⟩, rfl⟩ := holds
    · exact .inl ⟨fails, rfl⟩
    · exact .inr (.inl ⟨stays, rfl⟩)
    · cases tried with
      | none => exact absurd goesOn (not_goesTo_none_of_least_eq_zero steady unrequiredRest)
      | some finish => exact .inr (.inr ⟨next, begins, moves, goesOn⟩)

theorem goesTo_exactly_one_iff :
    (repeated rule (.exactly 1) false).GoesTo world captures place result ↔
      rule.GoesTo world captures place result := by
  rw [goesTo_repeated_once_iff steady rfl, if_neg (show (Range.exactly 1).least ≠ 0 from Nat.one_ne_zero)]
  constructor
  · intro goes
    rcases goes with ⟨fails, rfl⟩ | ⟨next, begins, rfl⟩
    · exact fails
    · exact begins
  · intro goes
    cases result with
    | none => exact .inl ⟨goes, rfl⟩
    | some next => exact .inr ⟨next, goes, rfl⟩

theorem goesTo_upTo_one_iff :
    (repeated rule (.upTo 1) false).GoesTo world captures place result ↔
      (optional rule false).GoesTo world captures place result := by
  rw [goesTo_repeated_once_iff steady rfl, if_pos (show (Range.upTo 1).least = 0 from rfl),
    goesTo_optional_iff steady]
  constructor
  · intro goes
    rcases goes with ⟨fails, rfl⟩ | ⟨next, begins, rfl⟩
    · exact ⟨none, fails, rfl⟩
    · exact ⟨some next, begins, rfl⟩
  · intro holds
    obtain ⟨tried, goes, rfl⟩ := holds
    cases tried with
    | none => exact .inl ⟨goes, rfl⟩
    | some next => exact .inr ⟨next, goes, rfl⟩

/-- So many repetitions are so many copies of the rule in a row. -/
theorem goesTo_exactly_iff (count : Nat) :
    (repeated rule (.exactly (count + 1)) false).GoesTo world captures place result ↔
      (sequence (List.replicate (count + 1) rule)).GoesTo world captures place result := by
  induction count generalizing place with
  | zero => exact (goesTo_exactly_one_iff steady).trans (goesTo_sequence_singleton_iff steady).symm
  | succ count ih =>
    have two : ∀ most, (Range.exactly (count + 1 + 1)).most = some most → 2 ≤ most := by
      rintro most ⟨⟩
      omega
    have steadyCopies : ∀ member ∈ rule :: List.replicate (count + 1) rule, member.IsSteady world := by
      intro member inside
      rw [← List.replicate_succ] at inside
      exact List.eq_of_mem_replicate inside ▸ steady
    rw [goesTo_unrolled_iff steady (Nat.le_add_left ..) two, Range.exactly_succ_after,
      goesTo_sequence_pair_iff steady steady.repeated, List.replicate_succ, goesTo_sequence_cons_iff steadyCopies]
    simp only [ih]

/-- An optional rule goes like a choice between the rule and a match of nothing. -/
theorem goesTo_optional_iff_anyOf :
    (optional rule false).GoesTo world captures place result ↔
      (anyOf [rule, always]).GoesTo world captures place result := by
  rw [goesTo_optional_iff steady, goesTo_anyOf_pair_iff steady always_steady, goesTo_always_iff]
  constructor
  · intro holds
    obtain ⟨tried, goes, rfl⟩ := holds
    cases tried with
    | none => exact .inr ⟨goes, rfl⟩
    | some next => exact .inl ⟨next, goes, rfl⟩
  · intro goes
    rcases goes with ⟨next, begins, rfl⟩ | ⟨fails, rfl⟩
    · exact ⟨some next, begins, rfl⟩
    · exact ⟨none, fails, rfl⟩

end Steady

/-- A repetition of a rule that captures nothing acts like the rule in front of one of what is left of the range, which
may be left out where nothing is required. Down to a single repetition, the rule itself, the optional rule, and its
choice with a match of nothing do. So many repetitions act like so many copies of the rule in a row. -/
theorem repeated_actsAs_unrolled (steady : rule.IsSteady world) :
    (∀ range : Range, 1 ≤ range.least → (∀ most, range.most = some most → 2 ≤ most) →
      (repeated rule range false).ActsAs world (sequence [rule, repeated rule (range.after 1) false])) ∧
    (repeated rule (.exactly 1) false).ActsAs world rule ∧
    (∀ range : Range, range.least = 0 → (∀ most, range.most = some most → 2 ≤ most) →
      (repeated rule range false).ActsAs world
        (optional (sequence [rule, repeated rule (range.after 1) false]) false)) ∧
    (repeated rule (.upTo 1) false).ActsAs world (optional rule false) ∧
    (optional rule false).ActsAs world (anyOf [rule, always]) ∧
    ∀ count, 1 ≤ count →
      (repeated rule (.exactly count) false).ActsAs world (sequence (List.replicate count rule)) := by
  have steadyRest (range : Range) : (sequence [rule, repeated rule (range.after 1) false]).IsSteady world :=
    .sequence (steady_pair steady steady.repeated)
  refine ⟨?_, ?_, ?_, ?_, ?_, ?_⟩
  · intro range required two
    exact actsAs_of_goesTo_iff steady.repeated (steadyRest range) (goesTo_unrolled_iff steady required two)
  · exact actsAs_of_goesTo_iff steady.repeated steady (goesTo_exactly_one_iff steady)
  · intro range unrequired two
    exact actsAs_of_goesTo_iff steady.repeated (steadyRest range).optional
      (goesTo_unrolled_optional_iff steady unrequired two)
  · exact actsAs_of_goesTo_iff steady.repeated steady.optional (goesTo_upTo_one_iff steady)
  · exact actsAs_of_goesTo_iff steady.optional (.anyOf (steady_pair steady always_steady))
      (goesTo_optional_iff_anyOf steady)
  · intro count positive
    obtain ⟨count, rfl⟩ := Nat.exists_eq_add_of_le' positive
    have steadyCopies : ∀ member ∈ List.replicate (count + 1) rule, member.IsSteady world := fun member inside =>
      List.eq_of_mem_replicate inside ▸ steady
    exact actsAs_of_goesTo_iff steady.repeated (.sequence steadyCopies) (goesTo_exactly_iff steady count)

open Brackets in
/-- Three repetitions of an optional opening bracket, of which the last matches nothing, take the two tokens that three
copies in a row take. -/
theorem exactly_three_takes_unrolled :
    (optional (taking opening) false).IsSteady Brackets.world ∧
      ∃ (found found' : Match) (after after' : Situation), found.tokens.length = 2 ∧
        (repeated (optional (taking opening) false) (.exactly 3) false).Yields Brackets.world ⟨Brackets.stream, {}⟩
          (some found) after ∧
        (sequence (List.replicate 3 (optional (taking opening) false))).Yields Brackets.world ⟨Brackets.stream, {}⟩
          (some found') after' ∧ found.Agrees found' := by
  have steady : (optional (taking opening) false).IsSteady Brackets.world :=
    (pair_steady_parts (taking opening) (by simp)).optional
  obtain ⟨-, -, -, -, -, copies⟩ := repeated_actsAs_unrolled steady
  exact ⟨steady, (copies 3 (by decide)).refinedBy.exists_agrees 12 2 (by decide +kernel)⟩

end Rule

end TokenGrammar
