namespace TokenGrammar

/-- The binary64 numbers that callers hand over. A finite one is held as an exact rational, so that an addition rounds in one
visible place; the two zeros are not told apart. -/
inductive Number where
  | notANumber
  | infinite (negative : Bool)
  | finite (value : Rat)
  deriving DecidableEq

namespace Number

def infinity : Number := .infinite false

/-- Counts, indices and lengths enter the number line unchanged. -/
def ofNat (count : Nat) : Number := .finite count

instance : Inhabited Number := ⟨ofNat 0⟩

instance (count : Nat) : OfNat Number count := ⟨ofNat count⟩

/-- The marker coordinate of something that has no place. -/
def minusOne : Number := .finite (-1)

theorem ofNat_injective {first second : Nat} (equal : ofNat first = ofNat second) : first = second := by
  simpa [ofNat, Rat.natCast_inj] using equal

def twoPow (exponent : Nat) : Nat := Nat.pow 2 exponent

def tenPow (exponent : Nat) : Nat := Nat.pow 10 exponent

/-- Divides to the nearest whole number, a half going to the even neighbour. -/
def divideToEven (dividend divisor : Nat) : Nat :=
  let whole := dividend / divisor
  let twice := 2 * (dividend % divisor)
  if twice < divisor then whole
  else if divisor < twice then whole + 1
  else if whole % 2 = 0 then whole else whole + 1

/-- The largest power of two that a positive quotient reaches. -/
def binaryExponent (dividend divisor : Nat) : Int :=
  let estimate : Int := (Nat.log2 dividend : Int) - Nat.log2 divisor
  let reached := if 0 ≤ estimate then divisor * twoPow estimate.toNat ≤ dividend
    else divisor ≤ dividend * twoPow (-estimate).toNat
  if reached then estimate else estimate - 1

/-- Rounds the magnitude of a quotient to 53 binary digits, fewer below the smallest normal number. -/
def roundMagnitude (dividend divisor : Nat) : Rat :=
  let unit := max (binaryExponent dividend divisor - 52) (-1074)
  if 0 ≤ unit then
    (divideToEven dividend (divisor * twoPow unit.toNat) * twoPow unit.toNat : Nat)
  else
    mkRat (divideToEven (dividend * twoPow (-unit).toNat) divisor) (twoPow (-unit).toNat)

/-- Whole numbers up to this one have a binary64 form of their own. -/
def exactLimit : Nat := twoPow 53

/-- The number nearest to an exact value; what passes the largest finite number is infinite. -/
def ofRat (exact : Rat) : Number :=
  if exact.den = 1 ∧ exact.num.natAbs ≤ exactLimit then .finite exact
  else
    let magnitude := roundMagnitude exact.num.natAbs exact.den
    if (twoPow 1024 : Nat) ≤ magnitude then .infinite (decide (exact.num < 0))
    else .finite (if exact.num < 0 then -magnitude else magnitude)

/-- A decimal numeral stands for the number nearest to it; the place of its first digit alone decides far
outside the range of the finite numbers. -/
def ofDecimal (negative : Bool) (digits : Nat) (exponent : Int) : Number :=
  let place := exponent + (toString digits).length
  if digits = 0 ∨ place < -400 then ofNat 0
  else if 400 < place then .infinite negative
  else
    let magnitude : Rat :=
      if 0 ≤ exponent then (digits * tenPow exponent.toNat : Nat)
      else mkRat digits (tenPow (-exponent).toNat)
    ofRat (if negative then -magnitude else magnitude)

/-- A whole number stands for the number nearest to it. -/
def nearest (count : Nat) : Number := ofRat count

/-- Addition rounds the exact sum. -/
def add : Number → Number → Number
  | .finite first, .finite second => ofRat (first + second)
  | .finite _, .infinite negative => .infinite negative
  | .infinite negative, .finite _ => .infinite negative
  | .infinite first, .infinite second => if first = second then .infinite first else .notANumber
  | _, _ => .notANumber

instance : Add Number := ⟨add⟩

/-- What is not a number is below nothing. -/
def lessThan : Number → Number → Bool
  | .finite first, .finite second => first < second
  | .finite _, .infinite negative => !negative
  | .infinite negative, .finite _ => negative
  | .infinite first, .infinite second => first && !second
  | _, _ => false

/-- Numbers are the same when neither is below the other; what is not a number is the same as nothing. -/
def same : Number → Number → Bool
  | .finite first, .finite second => first = second
  | .infinite first, .infinite second => first = second
  | _, _ => false

def atMost (first second : Number) : Bool := lessThan first second || same first second

/-- The count that a number stands for, if it is a whole number that is not negative. -/
def toNat? : Number → Option Nat
  | .finite value => if value.den = 1 ∧ 0 ≤ value.num then some value.num.toNat else none
  | _ => none

/-- The whole number that a number stands for, if it is one. -/
def toInt? : Number → Option Int
  | .finite value => if value.den = 1 then some value.num else none
  | _ => none

@[simp] theorem toNat?_ofNat (count : Nat) : (ofNat count).toNat? = some count := by
  simp [ofNat, toNat?]

theorem eq_ofNat_of_toNat? {number : Number} {count : Nat} (read : number.toNat? = some count) :
    number = ofNat count := by
  cases number with
  | finite value =>
    simp only [toNat?] at read
    split at read
    · rename_i whole
      obtain ⟨denominator, positive⟩ := whole
      have count_eq : value.num.toNat = count := by simpa using read
      have numerator : value.num = (count : Int) := by omega
      have : value = (count : Rat) := by
        apply Rat.ext
        · simp [numerator]
        · simp [denominator]
      simp [ofNat, this]
    · simp at read
  | notANumber => simp [toNat?] at read
  | infinite => simp [toNat?] at read

@[simp] theorem same_ofNat (first second : Nat) :
    same (ofNat first) (ofNat second) = decide (first = second) := by
  simp only [same, ofNat, Rat.natCast_inj]

@[simp] theorem lessThan_ofNat (first second : Nat) :
    lessThan (ofNat first) (ofNat second) = decide (first < second) := by
  simp only [lessThan, ofNat, Rat.natCast_lt_natCast]

@[simp] theorem atMost_ofNat (first second : Nat) :
    atMost (ofNat first) (ofNat second) = decide (first ≤ second) := by
  rw [atMost, lessThan_ofNat, same_ofNat, ← Bool.decide_or]
  exact decide_eq_decide.mpr (Nat.le_iff_lt_or_eq).symm

/-- Sums of counts are exact as long as they have a binary64 form. -/
theorem ofNat_add_ofNat {first second : Nat} (bounded : first + second ≤ exactLimit) :
    ofNat first + ofNat second = ofNat (first + second) := by
  have cast : (first : Rat) + (second : Rat) = ((first + second : Nat) : Rat) :=
    (Rat.natCast_add first second).symm
  have small : ((first + second : Nat) : Rat).den = 1 ∧
      ((first + second : Nat) : Rat).num.natAbs ≤ exactLimit := by
    rw [Rat.den_natCast, Rat.num_natCast]
    exact ⟨rfl, bounded⟩
  show add (ofNat first) (ofNat second) = _
  simp only [add, ofNat, cast, ofRat]
  rw [if_pos small]

/-- Decimal digits and the power of ten of the last of them. -/
structure Decimal where
  digits : Nat
  exponent : Int

def Decimal.value (decimal : Decimal) : Rat :=
  if 0 ≤ decimal.exponent then (decimal.digits * tenPow decimal.exponent.toNat : Nat)
  else mkRat decimal.digits (tenPow (-decimal.exponent).toNat)

/-- The number of decimal digits before the point of a quotient that is at least one, and the count of
zeros behind the point, taken negatively, of a smaller one. -/
def pointPosition (dividend divisor : Nat) : Int :=
  if divisor ≤ dividend then (toString (dividend / divisor)).length
  else 1 - (toString ((divisor - 1) / dividend)).length

/-- The decimals with the given exponent on either side of a positive value, the nearer one first. -/
def neighbours (magnitude : Rat) (exponent : Int) : List Decimal :=
  let scaled := if 0 ≤ exponent then magnitude / ((tenPow exponent.toNat : Nat) : Rat)
    else magnitude * ((tenPow (-exponent).toNat : Nat) : Rat)
  let below := scaled.floor.toNat
  let lower : Decimal := ⟨below, exponent⟩
  let upper : Decimal := ⟨below + 1, exponent⟩
  let rest := scaled - below
  if rest < 1 - rest then [lower, upper]
  else if 1 - rest < rest then [upper, lower]
  else if below % 2 = 0 then [lower, upper] else [upper, lower]

/-- Moves the zeros at the end of the digits into the exponent, as often as the fuel allows. -/
def Decimal.trimmed : Nat → Decimal → Decimal
  | 0, decimal => decimal
  | fuel + 1, decimal =>
    if decimal.digits ≠ 0 ∧ decimal.digits % 10 = 0 then
      Decimal.trimmed fuel ⟨decimal.digits / 10, decimal.exponent + 1⟩
    else decimal

/-- The decimal with the fewest digits that reads back as the given positive number, the nearest of those. -/
def shortest (magnitude : Rat) : Decimal :=
  let point := pointPosition magnitude.num.natAbs magnitude.den
  let candidates := (List.range 18).flatMap fun (length : Nat) => neighbours magnitude (point - 1 - length)
  let found := candidates.find? fun candidate => ofRat candidate.value = .finite magnitude
  (found.getD ⟨0, 0⟩).trimmed 20

def zeros (count : Nat) : String := String.ofList (List.replicate count '0')

/-- Numbers from 10⁻⁶ up to below 10²¹ are written positionally and all others with an exponent of ten
behind their first digit. -/
def Decimal.text (decimal : Decimal) : String :=
  let digits := toString decimal.digits
  let length := digits.length
  let point : Int := decimal.exponent + length
  if (length : Int) ≤ point ∧ point ≤ 21 then digits ++ zeros (point - length).toNat
  else if 0 < point ∧ point ≤ 21 then
    String.ofList (digits.toList.take point.toNat) ++ "." ++ String.ofList (digits.toList.drop point.toNat)
  else if -6 < point ∧ point ≤ 0 then "0." ++ zeros (-point).toNat ++ digits
  else
    let exponent := point - 1
    let sign := if exponent < 0 then "-" else "+"
    let mantissa := if length = 1 then digits
      else String.ofList (digits.toList.take 1) ++ "." ++ String.ofList (digits.toList.drop 1)
    mantissa ++ "e" ++ sign ++ toString exponent.natAbs

/-- The text of a number in messages. -/
def text : Number → String
  | .notANumber => "NaN"
  | .infinite negative => if negative then "-Infinity" else "Infinity"
  | .finite value =>
    if value.den = 1 ∧ value.num.natAbs ≤ exactLimit then toString value.num
    else (if value.num < 0 then "-" else "") ++ (shortest (if value.num < 0 then -value else value)).text

end Number

end TokenGrammar
