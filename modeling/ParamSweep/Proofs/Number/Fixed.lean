import Mathlib.Algebra.Order.Round
import ParamSweep.Number.Rendering
import ParamSweep.Proofs.Formula.Term
import ParamSweep.Proofs.Number.Quotient
import ParamSweep.Proofs.Number.Reading

/-!
# Texts with fixed places

The text of a float with fixed places is digits, a point and as many digits as there are places,
with a minus in front where the sign is one; floats that stand for no number have words instead.

Hardly any number of thousandths is a float. But the float nearest to one is so near that its text
with three places has the thousandths back, as long as there are fewer than `2 ^ 52` of them. Beyond
that the text may name a neighbour, and it keeps its form.
-/

namespace ParamSweep.Number

open Formula (DigitRun)

/-! ### Forms -/

/-- A number is written in digits. -/
theorem digitRun_digits (n : ℕ) : DigitRun (digits n) :=
  ⟨Nat.toDigits_ne_nil, fun _ member => Nat.isDigit_of_mem_toDigits (by norm_num) le_rfl member⟩

/-- Zeros before digits are digits. -/
theorem digitRun_padded (width n : ℕ) : DigitRun (padded width n) := by
  obtain ⟨some, each⟩ := digitRun_digits n
  refine ⟨List.append_ne_nil_of_right_ne_nil _ some, fun c member => ?_⟩
  obtain filled | own := List.mem_append.mp member
  · rw [List.eq_of_mem_replicate filled]
    rfl
  · exact each c own

/-- Zeros fill a number up to the width that is asked for. -/
theorem length_padded {width n : ℕ} (wide : 0 < width) (fits : n < 10 ^ width) :
    (padded width n).length = width := by
  have short : (digits n).length ≤ width := (Nat.length_toDigits_le_iff (by norm_num) wide).mpr fits
  rw [padded, List.length_append, List.length_replicate]
  omega

/-- Digits, a point, and so many digits. -/
inductive HasPlaces (places : ℕ) : List Char → Prop
  | mk {whole fraction : List Char} (before : DigitRun whole) (behind : DigitRun fraction)
      (length : fraction.length = places) : HasPlaces places (whole ++ '.' :: fraction)

/-- The units of a number have so many digits behind the point. -/
theorem hasPlaces_pointed (units : ℕ) {places : ℕ} (some : 0 < places) :
    HasPlaces places (pointed units places) :=
  .mk (digitRun_digits _) (digitRun_padded _ _)
    (length_padded some (Nat.mod_lt _ (powerOfTen_pos places)))

/-- The texts of floats with so many places. -/
inductive Fixed (places : ℕ) : List Char → Prop
  | plain {text : List Char} (unsigned : HasPlaces places text) : Fixed places text
  | minus {text : List Char} (unsigned : HasPlaces places text) : Fixed places ('-' :: text)
  | infinite : Fixed places "inf".toList
  | minusInfinite : Fixed places "-inf".toList
  | notANumber : Fixed places "NaN".toList

/-- Every float has such a text. -/
theorem fixed_form (x : Float) {places : ℕ} (some : 0 < places) :
    Fixed places (fixed places x).toList := by
  rw [fixed, String.toList_ofList]
  cases Binary64.ofFloat x with
  | finite negative mantissa exponent =>
    cases negative with
    | false => exact .plain (hasPlaces_pointed _ some)
    | true => exact .minus (hasPlaces_pointed _ some)
  | infinite negative =>
    cases negative with
    | false => exact .infinite
    | true => exact .minusInfinite
  | notANumber => exact .notANumber

/-! ### Values -/

/-- A quotient that is less than a half away from a whole number is rounded to it. -/
theorem roundHalfEven_eq {numerator denominator n : ℕ} (above : 0 < denominator)
    (near : |(numerator : ℚ) / denominator - n| < 1 / 2) :
    roundHalfEven numerator denominator = n := by
  have scale : (0 : ℚ) < denominator := Nat.cast_pos.mpr above
  obtain ⟨least, most⟩ := abs_lt.mp near
  have below : 2 * (n * denominator) < 2 * numerator + denominator := by
    have scaled : (n - 1 / 2) * (denominator : ℚ) < numerator := by
      rw [← lt_div_iff₀ scale]
      linarith
    have doubled : 2 * (n * denominator : ℚ) < 2 * numerator + denominator := by linarith
    exact_mod_cast doubled
  have beyond : 2 * numerator < 2 * (n * denominator) + denominator := by
    have scaled : (numerator : ℚ) < (n + 1 / 2) * denominator := by
      rw [← div_lt_iff₀ scale]
      linarith
    have doubled : 2 * (numerator : ℚ) < 2 * (n * denominator) + denominator := by linarith
    exact_mod_cast doubled
  have parts := Nat.div_add_mod numerator denominator
  have rest := Nat.mod_lt numerator above
  rw [Nat.mul_comm] at parts
  -- The quotient is the whole number, or one less with more than a half left.
  have notMore : numerator / denominator ≤ n := by
    by_contra more
    have larger := Nat.mul_le_mul_right denominator (Nat.lt_of_not_le more)
    rw [Nat.succ_mul] at larger
    omega
  have notLess : n ≤ numerator / denominator + 1 := by
    by_contra less
    have smaller := Nat.mul_le_mul_right denominator (Nat.lt_of_not_le less)
    rw [Nat.succ_mul, Nat.succ_mul] at smaller
    omega
  obtain same | oneLess : numerator / denominator = n ∨ numerator / denominator + 1 = n := by omega
  · rw [same] at parts
    rw [roundHalfEven, if_pos (by omega), same]
  · rw [← oneLess, Nat.add_mul, Nat.one_mul] at below
    rw [roundHalfEven, if_neg (by omega), if_pos (by omega), oneLess]

/-- A float that stands for a positive number has a mantissa, and no sign. -/
theorem exists_finite_of_pos {x : Float} {value : ℚ} (known : value? x = some value)
    (above : 0 < value) : ∃ mantissa exponent,
      Binary64.ofFloat x = .finite false mantissa exponent ∧
        (mantissa : ℚ) * 2 ^ exponent = value := by
  rw [value?] at known
  cases exact : Binary64.ofFloat x with
  | finite negative mantissa exponent =>
    rw [exact] at known
    cases negative with
    | false => exact ⟨mantissa, exponent, rfl, Option.some.inj known⟩
    | true =>
      have below : -((mantissa : ℚ) * 2 ^ exponent) = value := Option.some.inj known
      have nonnegative : (0 : ℚ) ≤ mantissa * 2 ^ exponent := by positivity
      linarith
  | infinite negative =>
    rw [exact] at known
    cases known
  | notANumber =>
    rw [exact] at known
    cases known

/-- A positive number is written as its units, rounded to a whole number. -/
theorem fixed_of_pos {x : Float} {value : ℚ} (known : value? x = some value) (above : 0 < value)
    (places : ℕ) : ∃ numerator denominator : ℕ, 0 < denominator ∧
      (numerator : ℚ) / denominator = value * 10 ^ places ∧
      (fixed places x).toList = pointed (roundHalfEven numerator denominator) places := by
  obtain ⟨mantissa, exponent, exact, rfl⟩ := exists_finite_of_pos known above
  refine ⟨Binary64.numerator mantissa exponent * powerOfTen places, Binary64.denominator exponent,
    Binary64.denominator_pos exponent, ?_, ?_⟩
  · have power : (powerOfTen places : ℚ) = 10 ^ places := Nat.cast_pow 10 places
    rw [Nat.cast_mul, mul_div_right_comm, Binary64.numerator_div_denominator, power]
  · rw [fixed, exact, String.toList_ofList]
    rfl

/-! ### Thousandths -/

/-- A whole number becomes the float that is nearest to it. -/
theorem isNearest_ofNat (n : ℕ) : IsNearest n (Float.ofNat n) := by
  have near := isNearest_ofScientific n 0
  rwa [pow_zero, div_one] at near

/-- A thousand is a float. -/
theorem value?_thousand : value? 1000 = some 1000 := by
  have whole : (1000 : ℚ) = (1000 : ℕ) := by norm_num
  rw [whole]
  exact (isNearest_ofNat 1000).value?_eq (isBinary64_natCast (by norm_num))

/-- The powers of two within the range of exponents are floats. -/
theorem isBinary64_zpow {exponent : ℤ} (least : -1074 ≤ exponent) (most : exponent < 1024) :
    IsBinary64 (2 ^ exponent) := by
  refine ⟨⟨1, exponent, by norm_num, least, by simp⟩, ?_⟩
  rw [abs_of_pos (two_zpow_pos exponent), bound, ← zpow_natCast]
  exact zpow_lt_zpow_right₀ one_lt_two (by exact_mod_cast most)

/-- A number is rounded to nothing that is below a float below it. -/
theorem IsBinary64.le_nearest {q y : ℚ} (isBinary64 : IsBinary64 y) (below : y ≤ q) :
    y ≤ nearest q := by
  have near := abs_nearest_sub_le q isBinary64
  rw [abs_of_nonpos (sub_nonpos.mpr below)] at near
  linarith [neg_le_of_abs_le near]

/-- Nor to anything that is above a float above it. -/
theorem IsBinary64.nearest_le {q y : ℚ} (isBinary64 : IsBinary64 y) (above : q ≤ y) :
    nearest q ≤ y := by
  have near := abs_nearest_sub_le q isBinary64
  rw [abs_of_nonneg (sub_nonneg.mpr above)] at near
  linarith [le_of_abs_le near]

/-- Rounding moves a number by at most half the spacing of the floats around it. -/
theorem abs_nearest_sub_le_half (q : ℚ) : |nearest q - q| ≤ 2 ^ spacing q / 2 := by
  have scale := two_zpow_pos (spacing q)
  have half := abs_sub_round (q / 2 ^ spacing q)
  calc |nearest q - q|
    _ ≤ |(round (q / 2 ^ spacing q) : ℚ) * 2 ^ spacing q - q| :=
      abs_nearest_sub_le_multiple q (round (q / 2 ^ spacing q))
    _ = |q / 2 ^ spacing q - round (q / 2 ^ spacing q)| * 2 ^ spacing q := by
      rw [← abs_of_pos scale, ← abs_mul, sub_mul, abs_of_pos scale, div_mul_cancel₀ _ scale.ne',
        abs_sub_comm]
    _ ≤ 1 / 2 * 2 ^ spacing q := mul_le_mul_of_nonneg_right half scale.le
    _ = 2 ^ spacing q / 2 := by ring

/-- Thousandths stand for a positive number. -/
theorem exists_value_thousandths {n : ℕ} (above : 0 < n) (small : n < 2 ^ 74) :
    ∃ value, value? (Float.ofNat n / 1000) = some value ∧ 0 < value := by
  have inRange {q : ℚ} (least : 2 ^ (-10 : ℤ) ≤ q) (most : q ≤ 2 ^ (74 : ℤ)) :
      |nearest q| < bound ∧ (2 : ℚ) ^ (-10 : ℤ) ≤ nearest q := by
    have lower := (isBinary64_zpow (by norm_num) (by norm_num)).le_nearest least
    have upper := (isBinary64_zpow (by norm_num) (by norm_num)).nearest_le most
    refine ⟨?_, lower⟩
    rw [abs_of_nonneg ((two_zpow_pos _).le.trans lower)]
    exact upper.trans_lt (zpow_lt_zpow_right₀ one_lt_two (by norm_num : (74 : ℤ) < 1024))
  have positive : (1 : ℚ) ≤ n := by exact_mod_cast above
  have bounded : (n : ℚ) ≤ 2 ^ (74 : ℤ) := by exact_mod_cast small.le
  obtain ⟨finite, -⟩ := inRange (le_trans (by norm_num) positive) bounded
  have one : IsBinary64 1 := by simpa using isBinary64_natCast (n := 1) (by norm_num)
  have least := one.le_nearest positive
  have most := (isBinary64_zpow (by norm_num) (by norm_num)).nearest_le bounded
  have quotient := isNearest_div ((isNearest_ofNat n).finite finite) value?_thousand (by norm_num)
  obtain ⟨finite', above'⟩ := inRange (q := nearest n / 1000)
    (by norm_num; linarith) (by linarith)
  exact ⟨_, quotient.finite finite', (two_zpow_pos _).trans_le above'⟩

/-- Thousandths are written with three places. -/
theorem hasPlaces_thousandths {n : ℕ} (small : n < 2 ^ 74) :
    HasPlaces 3 (fixed 3 (Float.ofNat n / 1000)).toList := by
  obtain rfl | above := Nat.eq_zero_or_pos n
  · have zero : (fixed 3 (Float.ofNat 0 / 1000)).toList = pointed 0 3 := by decide +kernel
    rw [zero]
    exact hasPlaces_pointed 0 (by norm_num)
  · obtain ⟨value, known, positive⟩ := exists_value_thousandths above small
    obtain ⟨numerator, denominator, -, -, text⟩ := fixed_of_pos known positive 3
    rw [text]
    exact hasPlaces_pointed _ (by norm_num)

/-- Not too many thousandths are written as they are.

Proof: the float that is written is less than half a thousandth away from the thousandths, since
half of the spacing of a quotient is less than a unit of its divisor, here two thousand. -/
theorem fixed_thousandths {n : ℕ} (small : n < 2 ^ 52) :
    (fixed 3 (Float.ofNat n / 1000)).toList = pointed n 3 := by
  obtain rfl | above := Nat.eq_zero_or_pos n
  · decide +kernel
  · obtain ⟨value, known, positive⟩ := exists_value_thousandths above (by omega)
    obtain ⟨numerator, denominator, divides, exact, text⟩ := fixed_of_pos known positive 3
    have whole := (isNearest_ofNat n).value?_eq (isBinary64_natCast (by omega))
    obtain rfl := (isNearest_div whole value?_thousand (by norm_num)).value_eq known
    have doubled : (n : ℚ) / 1000 = (2 * n : ℕ) / (2000 : ℕ) := by
      push_cast
      ring
    have half : (2 : ℚ) ^ spacing ((2 * n : ℕ) / (2000 : ℕ)) / 2 < 1 / (2000 : ℕ) :=
      half_spacing_lt (by omega) (by omega) (by norm_num) (by norm_num)
    rw [← doubled] at half
    have near := (abs_nearest_sub_le_half ((n : ℚ) / 1000)).trans_lt half
    rw [text, roundHalfEven_eq divides]
    rw [exact]
    obtain ⟨least, most⟩ := abs_lt.mp near
    refine abs_lt.mpr ⟨?_, ?_⟩ <;> push_cast at least most <;> linarith

end ParamSweep.Number
