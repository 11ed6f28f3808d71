import Mathlib.Logic.Basic
import TokenGrammar.Text.Basic

namespace TokenGrammar

namespace Text

variable {units : List UInt16} {unit : UInt16} {rest codes : List Nat} {code next : Nat}

theorem joinUnit_ne_nil (unit : UInt16) (rest : List Nat) : joinUnit unit rest ≠ [] := by
  cases rest with
  | nil => exact List.cons_ne_nil _ _
  | cons code rest =>
    rw [joinUnit]
    split <;> exact List.cons_ne_nil _ _

theorem joinUnit_append (filled : rest ≠ []) (more : List Nat) :
    joinUnit unit (rest ++ more) = joinUnit unit rest ++ more := by
  cases rest with
  | nil => exact absurd rfl filled
  | cons code rest =>
    rw [List.cons_append, joinUnit, joinUnit]
    split <;> rfl

/-- Units are joined apart from the codes behind them, unless their last one begins a pair that these complete. -/
theorem foldr_joinUnit_append
    (apart : ∀ unit ∈ units.getLast?, isLeading unit.toNat = false ∨ ∀ next ∈ rest.head?, isTrailing next = false) :
    units.foldr joinUnit rest = units.foldr joinUnit [] ++ rest := by
  induction units with
  | nil => rfl
  | cons unit tail ih =>
    cases tail with
    | nil => exact joinUnit_of_apart (apart unit rfl)
    | cons next tail =>
      have joined := ih apart
      rw [List.foldr_cons, joined]
      exact joinUnit_append (joinUnit_ne_nil _ _) rest

/-- A unit stays by itself in front of codes, or makes a pair with the first of them. -/
theorem joinUnit_cases (unit : UInt16) (rest : List Nat) : joinUnit unit rest = unit.toNat :: rest ∨
    ∃ code others, rest = code :: others ∧ isLeading unit.toNat = true ∧ isTrailing code = true ∧
      joinUnit unit rest = pairCode unit.toNat code :: others := by
  cases rest with
  | nil => exact .inl rfl
  | cons code others =>
    by_cases pair : isLeading unit.toNat = true ∧ isTrailing code = true
    · exact .inr ⟨code, others, rfl, pair.1, pair.2, joinUnit_of_pair others pair.1 pair.2⟩
    · refine .inl (joinUnit_of_apart ?_)
      rw [not_and_or, Bool.not_eq_true, Bool.not_eq_true] at pair
      refine pair.imp_right fun apart next first => ?_
      rw [List.head?_cons, Option.mem_some] at first
      rw [← first]
      exact apart

theorem pairCode_bounds {leading trailing : Nat} (first : isLeading leading = true)
    (second : isTrailing trailing = true) :
    0x10000 ≤ pairCode leading trailing ∧ pairCode leading trailing < 0x110000 := by
  simp only [isLeading, isTrailing, Bool.and_eq_true, decide_eq_true_eq] at first second
  unfold pairCode
  omega

theorem not_isTrailing_of_le {code : Nat} (large : 0x10000 ≤ code) : isTrailing code = false := by
  simp only [isTrailing, Bool.and_eq_false_iff, decide_eq_false_iff_not]
  omega

/-- The first of joined codes completes a pair only if it is the first unit by itself. -/
theorem eq_toNat_of_head?_joinUnit (first : (joinUnit unit rest).head? = some next) (second : isTrailing next = true) :
    next = unit.toNat := by
  rcases joinUnit_cases unit rest with alone | ⟨code, others, -, leads, trails, pair⟩
  · rw [alone] at first
    exact (Option.some.inj first).symm
  · rw [pair, List.head?_cons, Option.some.injEq] at first
    rw [← first, not_isTrailing_of_le (pairCode_bounds leads trails).1] at second
    cases second

/-- A unit that is no part of a pair is a code of its own, and no other code has a unit like it. -/
theorem mem_unitsOf_iff (bounded : code < 0x110000) (alone : isPairUnit unit.toNat = false) :
    unit ∈ unitsOf code ↔ code = unit.toNat := by
  simp only [isPairUnit, isLeading, isTrailing, Bool.or_eq_false_iff, Bool.and_eq_false_iff,
    decide_eq_false_iff_not] at alone
  by_cases low : code < 0x10000
  · rw [unitsOf, if_pos low, List.mem_singleton, ← UInt16.toNat_inj, toNat_ofNat low]
    exact eq_comm
  · have leading := @toNat_ofNat (0xD800 + (code - 0x10000) / 0x400) (by omega)
    have trailing := @toNat_ofNat (0xDC00 + (code - 0x10000) % 0x400) (by omega)
    have small := unit.toNat_lt
    rw [unitsOf, if_neg low, List.mem_cons, List.mem_singleton, ← UInt16.toNat_inj, ← UInt16.toNat_inj, leading,
      trailing]
    omega

theorem isLeading_of_getLast?_unitsOf (last : (unitsOf code).getLast? = some unit)
    (leads : isLeading unit.toNat = true) : isLeading code = true := by
  rw [unitsOf] at last
  split at last
  · rename_i low
    rw [List.getLast?_singleton, Option.some.injEq] at last
    rwa [← last, toNat_ofNat low] at leads
  · rw [List.getLast?_cons_cons, List.getLast?_singleton, Option.some.injEq] at last
    rw [← last, toNat_ofNat (by omega)] at leads
    simp only [isLeading, Bool.and_eq_true, decide_eq_true_eq] at leads
    omega

theorem isTrailing_of_head?_codes (bounded : code < 0x110000)
    (first : (ofCodes (code :: codes)).codes.head? = some next) (second : isTrailing next = true) :
    isTrailing code = true := by
  have reads : (ofCodes (code :: codes)).codes = (unitsOf code).foldr joinUnit (ofCodes codes).codes := by
    simp [ofCodes, Text.codes, List.flatMap_cons, List.foldr_append]
  rw [reads, unitsOf] at first
  split at first
  · rename_i low
    rw [eq_toNat_of_head?_joinUnit first second, toNat_ofNat low] at second
    exact second
  · rw [eq_toNat_of_head?_joinUnit first second, toNat_ofNat (by omega)] at second
    simp only [isTrailing, Bool.and_eq_true, decide_eq_true_eq] at second
    omega

theorem codes_append {first second : Text}
    (apart : ∀ unit ∈ first.units.getLast?, isLeading unit.toNat = false ∨
      ∀ next ∈ second.codes.head?, isTrailing next = false) :
    (first ++ second).codes = first.codes ++ second.codes := by
  rw [Text.codes, units_append, List.foldr_append]
  exact foldr_joinUnit_append apart

theorem codes_lt (content : Text) : ∀ code ∈ content.codes, code < 0x110000 := by
  obtain ⟨units⟩ := content
  induction units with
  | nil => exact fun code member => absurd member List.not_mem_nil
  | cons unit units ih =>
    intro code member
    have small := unit.toNat_lt
    rw [Text.codes, List.foldr_cons] at member
    rcases joinUnit_cases unit (units.foldr joinUnit []) with alone | ⟨next, others, split, leads, trails, pair⟩
    · rw [alone] at member
      rcases List.mem_cons.mp member with rfl | later
      · omega
      · exact ih code later
    · rw [pair] at member
      rcases List.mem_cons.mp member with same | later
      · rw [same]
        exact (pairCode_bounds leads trails).2
      · refine ih code ?_
        rw [Text.codes, split]
        exact List.mem_cons_of_mem _ later

theorem isEmpty_ofCodes (filled : codes ≠ []) : (ofCodes codes).isEmpty = false := by
  cases codes with
  | nil => exact absurd rfl filled
  | cons code rest =>
    rw [isEmpty, ofCodes, List.flatMap_cons, unitsOf]
    split <;> rfl

variable {text : Text}

/-- The codes behind the first one are those of a text. -/
theorem exists_codes_eq_of_cons {code : Nat} (split : text.codes = code :: codes) : ∃ rest : Text, rest.codes = codes := by
  obtain ⟨units⟩ := text
  induction units generalizing code codes with
  | nil => cases split
  | cons unit units ih =>
    rw [Text.codes, List.foldr_cons] at split
    rcases joinUnit_cases unit (units.foldr joinUnit []) with alone | ⟨second, others, inner, -, -, pair⟩
    · rw [alone] at split
      exact ⟨⟨units⟩, (List.cons.inj split).2⟩
    · rw [pair] at split
      rw [← (List.cons.inj split).2]
      exact ih inner

/-- Codes are those of a text when they are read back from the text that they make. -/
def AreCodes (codes : List Nat) : Prop := (ofCodes codes).codes = codes

theorem areCodes_codes (text : Text) : AreCodes text.codes := by rw [AreCodes, ofCodes_codes]

theorem areCodes_iff : AreCodes codes ↔ ∃ text : Text, text.codes = codes := by
  constructor
  · exact fun written => ⟨_, written⟩
  · rintro ⟨text, rfl⟩
    exact areCodes_codes text

theorem codes_ofCodes_cons (code : Nat) (codes : List Nat) :
    (ofCodes (code :: codes)).codes = (unitsOf code).foldr joinUnit (ofCodes codes).codes := by
  simp [ofCodes, Text.codes, List.flatMap_cons, List.foldr_append]

theorem areCodes_singleton (bounded : code < 0x110000) : AreCodes [code] := by
  rw [AreCodes, codes_ofCodes_cons]
  by_cases low : code < 0x10000
  · rw [unitsOf, if_pos low, List.foldr_cons, List.foldr_nil, joinUnit_of_apart (.inr (by simp [ofCodes, Text.codes])),
      toNat_ofNat low]
    rfl
  · exact foldr_joinUnit_unitsOf_of_le (Nat.le_of_not_lt low) bounded _

theorem AreCodes.tail (written : AreCodes (code :: codes)) : AreCodes codes :=
  areCodes_iff.mpr (exists_codes_eq_of_cons written)

theorem AreCodes.lt (written : AreCodes codes) : ∀ code ∈ codes, code < 0x110000 := by
  rw [← written]
  exact codes_lt _

/-- A code in front of codes makes codes, unless the two begin with a pair of units. -/
theorem AreCodes.cons (bounded : code < 0x110000) (written : AreCodes codes)
    (apart : isLeading code = false ∨ ∀ next ∈ codes.head?, isTrailing next = false) : AreCodes (code :: codes) := by
  rw [AreCodes, codes_ofCodes_cons, written]
  by_cases low : code < 0x10000
  · have same := toNat_ofNat low
    rw [unitsOf, if_pos low, List.foldr_cons, List.foldr_nil, joinUnit_of_apart (same.symm ▸ apart), same]
  · exact foldr_joinUnit_unitsOf_of_le (Nat.le_of_not_lt low) bounded _

/-- Units are joined with the first codes behind them, whatever follows these. -/
theorem foldr_joinUnit_append_of_filled (units : List UInt16) (filled : rest ≠ []) (more : List Nat) :
    units.foldr joinUnit (rest ++ more) = units.foldr joinUnit rest ++ more := by
  induction units with
  | nil => rfl
  | cons unit units ih =>
    rw [List.foldr_cons, ih, List.foldr_cons]
    refine joinUnit_append ?_ more
    cases units with
    | nil => exact filled
    | cons next units => exact joinUnit_ne_nil _ _

/-- What is before a cut and what is behind it are codes of texts. -/
theorem AreCodes.of_append {front back : List Nat} (written : AreCodes (front ++ back)) :
    AreCodes front ∧ AreCodes back := by
  induction front with
  | nil => exact ⟨rfl, written⟩
  | cons code front ih =>
    obtain ⟨before, behind⟩ := ih written.tail
    refine ⟨?_, behind⟩
    cases front with
    | nil => exact areCodes_singleton (written.lt code (List.mem_cons_self ..))
    | cons next front =>
      have rest : (ofCodes (next :: front ++ back)).codes = next :: front ++ back := written.tail
      have whole := written
      rw [AreCodes, List.cons_append, codes_ofCodes_cons, rest,
        foldr_joinUnit_append_of_filled _ (List.cons_ne_nil next front), ← List.cons_append] at whole
      rw [AreCodes, codes_ofCodes_cons, before]
      exact List.append_cancel_right whole

theorem AreCodes.not_pair {leading trailing : Nat} (written : AreCodes (leading :: trailing :: codes))
    (leads : isLeading leading = true) (trails : isTrailing trailing = true) : False := by
  have pair : AreCodes [leading, trailing] := written.of_append.1
  have second : (ofCodes [trailing]).codes = [trailing] := pair.tail
  have small : leading < 0x10000 := by
    simp only [isLeading, Bool.and_eq_true, decide_eq_true_eq] at leads
    omega
  have same := toNat_ofNat small
  rw [AreCodes, codes_ofCodes_cons, second, unitsOf, if_pos small, List.foldr_cons, List.foldr_nil,
    joinUnit_of_pair [] (same.symm ▸ leads) trails] at pair
  cases (List.cons.inj pair).2

theorem exists_lead_of_getLast? {front : List Nat} (last : (ofCodes front).units.getLast? = some unit)
    (leads : isLeading unit.toNat = true) : ∃ before lead, front = before ++ [lead] ∧ isLeading lead = true := by
  rcases List.eq_nil_or_concat front with rfl | ⟨before, lead, rfl⟩
  · cases last
  · refine ⟨before, lead, List.concat_eq_append, @isLeading_of_getLast?_unitsOf unit lead ?_ leads⟩
    have filled : unitsOf lead ≠ [] := by
      rw [unitsOf]
      split <;> exact List.cons_ne_nil _ _
    simpa [ofCodes, filled] using last

/-- Behind codes that end in no first unit of a pair, a text has its own codes. -/
theorem codes_ofCodes_append {front : List Nat} (written : AreCodes front)
    (apart : ∀ lead ∈ front.getLast?, isLeading lead = true → ∀ next ∈ text.codes.head?, isTrailing next = false) :
    (ofCodes front ++ text).codes = front ++ text.codes := by
  rw [codes_append, written]
  intro unit last
  rw [or_iff_not_imp_left, Bool.not_eq_false]
  intro leads next first
  obtain ⟨before, lead, rfl, leads'⟩ := exists_lead_of_getLast? last leads
  exact apart lead (by simp) leads' next first

theorem length_joinUnit_le (unit : UInt16) (rest : List Nat) : (joinUnit unit rest).length ≤ rest.length + 1 := by
  rcases joinUnit_cases unit rest with alone | ⟨next, others, rfl, -, -, pair⟩
  · exact Nat.le_of_eq (by rw [alone, List.length_cons])
  · rw [pair, List.length_cons, List.length_cons]
    omega

theorem length_foldr_joinUnit_unitsOf_le (bounded : code < 0x110000) (rest : List Nat) :
    ((unitsOf code).foldr joinUnit rest).length ≤ rest.length + 1 := by
  by_cases low : code < 0x10000
  · rw [unitsOf, if_pos low]
    exact length_joinUnit_le _ rest
  · exact Nat.le_of_eq (by rw [foldr_joinUnit_unitsOf_of_le (Nat.le_of_not_lt low) bounded, List.length_cons])

/-- Before the last code of a text, what is put behind the text changes nothing. -/
theorem exists_codes_append {before : List Nat} (ends : text.codes = before ++ [code]) (behind : Text) :
    ∃ more, (text ++ behind).codes = before ++ more ∧ more.length ≤ behind.length + 1 := by
  have written : AreCodes (before ++ [code]) := ends ▸ text.areCodes_codes
  have whole : text ++ behind = ofCodes before ++ ofCodes (code :: behind.codes) := by
    have back : ofCodes (code :: behind.codes) = ofCodes [code] ++ behind := by
      rw [← List.singleton_append, ofCodes_append, ofCodes_codes]
    rw [← text.ofCodes_codes, ends, ofCodes_append, append_assoc, back]
  have bounded := written.lt code (by simp)
  refine ⟨(ofCodes (code :: behind.codes)).codes, ?_, ?_⟩
  rotate_left
  · rw [codes_ofCodes_cons, ofCodes_codes]
    exact length_foldr_joinUnit_unitsOf_le bounded _
  rw [whole]
  refine codes_ofCodes_append written.of_append.1 fun lead last leads next first => ?_
  rw [Bool.eq_false_iff]
  intro trails
  have second := isTrailing_of_head?_codes bounded first trails
  obtain ⟨others, rfl⟩ := List.getLast?_eq_some_iff.mp last
  rw [List.append_assoc] at written
  exact written.of_append.2.not_pair leads second

/-- Whether a text ends in the first unit of a pair and another one begins with the second. -/
def MeetInPair (first second : Text) : Prop :=
  ∃ leading trailing, first.units.getLast? = some leading ∧ second.units.head? = some trailing ∧
    isLeading leading.toNat = true ∧ isTrailing trailing.toNat = true

theorem codes_append_of_not_meetInPair {first second : Text} (apart : ¬ MeetInPair first second) :
    (first ++ second).codes = first.codes ++ second.codes := by
  refine codes_append fun unit last => ?_
  rw [or_iff_not_imp_left, Bool.not_eq_false]
  intro leads next begins
  rw [Bool.eq_false_iff]
  intro trails
  obtain ⟨units⟩ := second
  cases units with
  | nil => cases begins
  | cons trailing units =>
    have same := eq_toNat_of_head?_joinUnit begins trails
    exact apart ⟨unit, trailing, last, rfl, leads, same ▸ trails⟩

/-- What is behind so many codes of a text. -/
def afterCodes (text : Text) (count : Nat) : Text := .ofCodes (text.codes.drop count)

theorem codes_afterCodes (text : Text) (count : Nat) : (text.afterCodes count).codes = text.codes.drop count := by
  have written := text.areCodes_codes
  rw [← text.codes.take_append_drop count] at written
  exact written.of_append.2

end Text

end TokenGrammar
