import TokenGrammar.Number

namespace TokenGrammar.Number

def largest : Nat := (twoPow 53).pred * twoPow 971

/-- Whether a number is one that has a binary64 form. -/
def IsBinary64 : Number → Prop
  | .finite value => ofRat value = .finite value
  | _ => True

variable {count further : Nat}

theorem twoPow_pos (exponent : Nat) : 0 < twoPow exponent := Nat.two_pow_pos exponent

theorem twoPow_add (first second : Nat) : twoPow (first + second) = twoPow first * twoPow second := Nat.pow_add ..

theorem twoPow_le_twoPow {first second : Nat} (ordered : first ≤ second) : twoPow first ≤ twoPow second :=
  Nat.pow_le_pow_right Nat.zero_lt_two ordered

theorem log2_lt_iff {exponent : Nat} (positive : 0 < count) : Nat.log2 count < exponent ↔ count < twoPow exponent :=
  Nat.log2_lt (Nat.ne_of_gt positive)

theorem exactLimit_le_largest : exactLimit ≤ largest := by decide +kernel

theorem largest_add_exactLimit_lt : largest + exactLimit < twoPow 1024 := by decide +kernel

theorem twice_exactLimit_lt : 2 * exactLimit < twoPow 971 := by decide +kernel

theorem twoPow_le_largest : twoPow 1023 ≤ largest := by decide +kernel

theorem divideToEven_le (dividend divisor : Nat) : divideToEven dividend divisor ≤ dividend / divisor + 1 := by
  simp only [divideToEven]
  split
  · exact Nat.le_succ _
  · split
    · exact Nat.le_refl _
    · split
      · exact Nat.le_succ _
      · exact Nat.le_refl _

theorem divideToEven_of_lt {dividend divisor : Nat} (near : 2 * (dividend % divisor) < divisor) :
    divideToEven dividend divisor = dividend / divisor := by
  simp only [divideToEven, if_pos near]

theorem binaryExponent_one (positive : 0 < count) : binaryExponent count 1 = Nat.log2 count := by
  have reached : twoPow (Nat.log2 count) ≤ count := Nat.log2_self_le (Nat.ne_of_gt positive)
  have one : Nat.log2 1 = 0 := by decide
  simp [binaryExponent, one, reached]

/-- The distance between the numbers around a count that is too large to be exact. -/
def gapAround (count : Nat) : Nat := twoPow (Nat.log2 count - 52)

theorem log2_of_exactLimit_lt (large : exactLimit < count) : 53 ≤ Nat.log2 count :=
  (Nat.le_log2 (Nat.ne_of_gt (Nat.zero_lt_of_lt large))).mpr (Nat.le_of_lt large)

theorem lt_twoPow_mul_gapAround (large : exactLimit < count) : count < twoPow 53 * gapAround count := by
  have below : count < 2 ^ (Nat.log2 count + 1) := Nat.lt_log2_self
  have exponent : Nat.log2 count + 1 = 53 + (Nat.log2 count - 52) := by
    have := log2_of_exactLimit_lt large
    omega
  rw [exponent] at below
  exact Nat.lt_of_lt_of_eq below (twoPow_add ..)

theorem roundMagnitude_one (large : exactLimit < count) :
    roundMagnitude count 1 = (divideToEven count (gapAround count) * gapAround count : Nat) := by
  have exponent := log2_of_exactLimit_lt large
  have unit : max ((Nat.log2 count : Int) - 52) (-1074) = ((Nat.log2 count - 52 : Nat) : Int) := by omega
  simp only [roundMagnitude, binaryExponent_one (Nat.zero_lt_of_lt large), unit, Int.natCast_nonneg, if_true,
    Int.toNat_natCast, Nat.one_mul, gapAround]

/-- Up to a count above the largest number, counts are rounded to one of the finite numbers. -/
theorem rounded_le_largest (large : exactLimit < count) (bounded : count ≤ largest + exactLimit) :
    divideToEven count (gapAround count) * gapAround count ≤ largest := by
  have positive : 0 < gapAround count := twoPow_pos _
  have quotient : count / gapAround count < twoPow 53 :=
    Nat.div_lt_of_lt_mul (Nat.mul_comm .. ▸ lt_twoPow_mul_gapAround large)
  have exponent : Nat.log2 count < 1024 :=
    (log2_lt_iff (Nat.zero_lt_of_lt large)).mpr (Nat.lt_of_le_of_lt bounded largest_add_exactLimit_lt)
  have upper := divideToEven_le count (gapAround count)
  rcases Nat.lt_or_eq_of_le (Nat.le_of_lt_succ exponent) with below | top
  · -- Below the last power of two there is room for rounding up.
    have gap : gapAround count ≤ twoPow 970 := twoPow_le_twoPow (by omega)
    calc divideToEven count (gapAround count) * gapAround count
        ≤ twoPow 53 * twoPow 970 := Nat.mul_le_mul (Nat.le_trans upper quotient) gap
      _ = twoPow 1023 := (twoPow_add 53 970).symm
      _ ≤ largest := twoPow_le_largest
  · have gap : gapAround count = twoPow 971 := by rw [gapAround, top]
    rw [gap] at quotient upper ⊢
    refine Nat.mul_le_mul_right _ ?_
    rcases Nat.lt_or_eq_of_le (Nat.le_pred_of_lt quotient) with inner | last
    · exact Nat.le_trans upper inner
    · -- Behind the largest number, what is added is less than half of the distance.
      have rest : count % twoPow 971 ≤ exactLimit := by
        have parts := Nat.div_add_mod count (twoPow 971)
        rw [last, Nat.mul_comm, ← largest] at parts
        omega
      have near : 2 * (count % twoPow 971) < twoPow 971 :=
        Nat.lt_of_le_of_lt (Nat.mul_le_mul_left 2 rest) twice_exactLimit_lt
      exact Nat.le_of_eq ((divideToEven_of_lt near).trans last)

/-- The number nearest to a count that is at most a count above the largest number. -/
theorem exists_ofRat_natCast (bounded : count ≤ largest + exactLimit) :
    ∃ rounded ≤ largest, ofRat (count : Rat) = .ofNat rounded := by
  by_cases exact : count ≤ exactLimit
  · refine ⟨count, Nat.le_trans exact exactLimit_le_largest, ?_⟩
    simp [ofRat, exact, ofNat]
  · have large := Nat.lt_of_not_le exact
    have inside := rounded_le_largest large bounded
    refine ⟨_, inside, ?_⟩
    have finite : ¬ ((twoPow 1024 : Nat) : Rat) ≤ roundMagnitude count 1 := by
      rw [roundMagnitude_one large, Rat.natCast_le_natCast, Nat.not_le]
      exact Nat.lt_of_le_of_lt (Nat.le_trans inside (Nat.le_add_right ..)) largest_add_exactLimit_lt
    have sign : ¬ (count : Int) < 0 := by omega
    simp only [ofRat, Rat.den_natCast, Rat.num_natCast, Int.natAbs_natCast, exact, and_false, if_false, finite, sign]
    rw [roundMagnitude_one large, ofNat]

/-- A count that is added to a finite number leads to a finite number. -/
theorem exists_ofNat_add_ofNat (finite : count ≤ largest) (small : further ≤ exactLimit) :
    ∃ sum ≤ largest, ofNat count + ofNat further = .ofNat sum := by
  obtain ⟨sum, bounded, rounds⟩ := exists_ofRat_natCast (Nat.add_le_add finite small)
  exact ⟨sum, bounded, by rw [← rounds, Rat.natCast_add]; rfl⟩

theorem isBinary64_ofNat (exact : count ≤ exactLimit) : (ofNat count).IsBinary64 := by
  simp [IsBinary64, ofNat, ofRat, exact]

/-- The whole numbers that have a binary64 form are at most the largest one. -/
theorem IsBinary64.le_largest (form : (ofNat count).IsBinary64) : count ≤ largest := by
  by_cases exact : count ≤ exactLimit
  · exact Nat.le_trans exact exactLimit_le_largest
  · have large := Nat.lt_of_not_le exact
    have sign : ¬ (count : Int) < 0 := by omega
    simp only [IsBinary64, ofNat, ofRat, Rat.den_natCast, Rat.num_natCast, Int.natAbs_natCast, exact, and_false, if_false,
      sign, roundMagnitude_one large] at form
    split at form
    · cases form
    · rename_i finite
      rw [Rat.natCast_le_natCast, Nat.not_le] at finite
      injection form with same
      rw [Rat.natCast_inj] at same
      rw [same] at finite
      have exponent : Nat.log2 count < 1024 := (log2_lt_iff (Nat.zero_lt_of_lt large)).mpr finite
      rcases Nat.lt_or_eq_of_le (Nat.le_of_lt_succ exponent) with below | top
      · have inner : count < twoPow 1023 := (log2_lt_iff (Nat.zero_lt_of_lt large)).mp below
        exact Nat.le_trans (Nat.le_of_lt inner) twoPow_le_largest
      · -- A multiple of the last distance that is below the last power of two is at most the largest number.
        have gap : gapAround count = twoPow 971 := by rw [gapAround, top]
        rw [gap] at same
        rw [← same, show twoPow 1024 = twoPow 53 * twoPow 971 from twoPow_add 53 971] at finite
        have quotient := Nat.lt_of_mul_lt_mul_right finite
        rw [← same]
        exact Nat.mul_le_mul_right _ (Nat.le_pred_of_lt quotient)

end TokenGrammar.Number
