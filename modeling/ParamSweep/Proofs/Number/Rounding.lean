import ParamSweep.Proofs.Number.Pattern

/-!
# Rounding mantissas

Sums, products and quotients of floats are first made with more digits than a float has, or with
two bits that tell what is left behind the digits: whether it reaches half a unit, and whether there
is more. Shifting to the right loses nothing that these bits could tell. So a mantissa that is
shifted to the spacing of a magnitude and rounded there is the nearest one, and at most one more
shift, which is exact, brings it back to 53 digits.
-/

namespace ParamSweep.Number

open Float.Model Float.Model.UnpackedFloat

/-! ### What the bits behind a mantissa tell -/

/-- A mantissa with the bits behind it, and the numbers that it may stand for. -/
inductive Describes : ExtendedMantissa → ℚ → Prop
  | exact (mantissa : ℕ) : Describes ⟨mantissa, false, false⟩ mantissa
  | less {mantissa : ℕ} {x : ℚ} (above : mantissa < x) (below : x < mantissa + 1 / 2) :
      Describes ⟨mantissa, false, true⟩ x
  | tie (mantissa : ℕ) : Describes ⟨mantissa, true, false⟩ (mantissa + 1 / 2)
  | more {mantissa : ℕ} {x : ℚ} (above : mantissa + 1 / 2 < x) (below : x < mantissa + 1) :
      Describes ⟨mantissa, true, true⟩ x

namespace Describes

variable {extended : ExtendedMantissa} {x : ℚ}

/-- A quotient of natural numbers is described by its whole part and by what is left. -/
theorem quotient (dividend : ℕ) {divisor : ℕ} (above : 0 < divisor) :
    Describes
      (.ofMantissaAndAccuracy (dividend / divisor)
        (accuracyOfFraction (dividend % divisor) divisor))
      ((dividend : ℚ) / divisor) := by
  have size : (0 : ℚ) < divisor := Nat.cast_pos.mpr above
  have parts : (dividend : ℚ) / divisor =
      (dividend / divisor : ℕ) + ((dividend % divisor : ℕ) : ℚ) / divisor := by
    rw [div_eq_iff size.ne', add_mul, div_mul_cancel₀ _ size.ne']
    exact_mod_cast (Nat.div_add_mod' dividend divisor).symm
  have less : ((dividend % divisor : ℕ) : ℚ) / divisor < 1 := by
    rw [div_lt_one size]
    exact_mod_cast Nat.mod_lt _ above
  rw [parts]
  unfold accuracyOfFraction
  split
  next none =>
    rw [none, Nat.cast_zero, zero_div, add_zero]
    exact .exact _
  next some =>
    have left : 0 < ((dividend % divisor : ℕ) : ℚ) / divisor :=
      div_pos (Nat.cast_pos.mpr (Nat.pos_of_ne_zero some)) size
    cases order : compare (2 * (dividend % divisor)) divisor with
    | lt =>
      have half : ((dividend % divisor : ℕ) : ℚ) / divisor < 1 / 2 := by
        rw [div_lt_iff₀ size]
        have below : 2 * ((dividend % divisor : ℕ) : ℚ) < divisor := by
          exact_mod_cast Nat.compare_eq_lt.mp order
        linarith
      exact .less (by linarith) (by linarith)
    | eq =>
      have half : ((dividend % divisor : ℕ) : ℚ) / divisor = 1 / 2 := by
        rw [div_eq_iff size.ne']
        have same : 2 * ((dividend % divisor : ℕ) : ℚ) = divisor := by
          exact_mod_cast Nat.compare_eq_eq.mp order
        linarith
      rw [half]
      exact .tie _
    | gt =>
      have half : 1 / 2 < ((dividend % divisor : ℕ) : ℚ) / divisor := by
        rw [lt_div_iff₀ size]
        have beyond : (divisor : ℚ) < 2 * (dividend % divisor : ℕ) := by
          exact_mod_cast Nat.compare_eq_gt.mp order
        linarith
      exact .more (by linarith) (by linarith)

/-- Shifting by one digit halves the number. -/
theorem shiftRightOne (describes : Describes extended x) :
    Describes extended.shiftRightOne (x / 2) := by
  have parts (mantissa : ℕ) : (mantissa : ℚ) = 2 * (mantissa / 2 : ℕ) + (mantissa % 2 : ℕ) := by
    exact_mod_cast (Nat.div_add_mod mantissa 2).symm
  have half := parts extended.mantissa
  unfold ExtendedMantissa.shiftRightOne
  obtain even | odd := Nat.mod_two_eq_zero_or_one extended.mantissa
  · rw [even, Nat.cast_zero, add_zero] at half
    rw [even]
    cases describes with
    | exact mantissa =>
      dsimp only at half
      rw [half, mul_div_cancel_left₀ _ two_ne_zero]
      exact .exact _
    | less above below => exact .less (by linarith) (by linarith)
    | tie mantissa => exact .less (by linarith) (by linarith)
    | more above below => exact .less (by linarith) (by linarith)
  · rw [odd, Nat.cast_one] at half
    rw [odd]
    cases describes with
    | exact mantissa =>
      dsimp only at half
      rw [half, add_div, mul_div_cancel_left₀ _ two_ne_zero]
      exact .tie _
    | less above below => exact .more (by linarith) (by linarith)
    | tie mantissa => exact .more (by linarith) (by linarith)
    | more above below => exact .more (by linarith) (by linarith)

/-- Shifting by some digits divides the number. -/
theorem shiftRight (describes : Describes extended x) (digits : ℕ) :
    Describes (extended >>> digits) (x / 2 ^ digits) := by
  induction digits with
  | zero =>
    rw [pow_zero, div_one]
    exact describes
  | succ digits inductionHypothesis =>
    rw [pow_succ, ← div_div]
    exact inductionHypothesis.shiftRightOne

/-- The bits suffice to round. -/
theorem roundedMantissa_eq (describes : Describes extended x) :
    (extended.roundedMantissa : ℤ) = nearestInteger x := by
  have floor (mantissa : ℕ) {y : ℚ} (least : mantissa ≤ y) (most : y < mantissa + 1) :
      ⌊y⌋ = (mantissa : ℤ) :=
    Int.floor_eq_iff.mpr ⟨by exact_mod_cast least, by exact_mod_cast most⟩
  cases describes with
  | exact mantissa => exact (nearestInteger_intCast mantissa).symm
  | @less mantissa x above below =>
    have whole := floor mantissa above.le (by linarith)
    rw [nearestInteger, whole, if_pos (by push_cast; linarith)]
    rfl
  | tie mantissa =>
    have whole := floor mantissa (y := (mantissa : ℚ) + 1 / 2) (by linarith) (by linarith)
    rw [nearestInteger, whole, if_neg (by push_cast; linarith), if_neg (by push_cast; linarith)]
    rfl
  | @more mantissa x above below =>
    have whole := floor mantissa (by linarith) below
    rw [nearestInteger, whole, if_neg (by push_cast; linarith), if_pos (by push_cast; linarith)]
    rfl

/-- The mantissa is the whole part of the number that is described. -/
theorem bounds (describes : Describes extended x) :
    (extended.mantissa : ℚ) ≤ x ∧ x < extended.mantissa + 1 := by
  cases describes with
  | exact mantissa => exact ⟨le_refl _, by linarith⟩
  | less above below => exact ⟨above.le, by linarith⟩
  | tie mantissa => exact ⟨by linarith, by linarith⟩
  | more above below => exact ⟨by linarith, below⟩

end Describes

/-! ### Rounding to the spacing -/

/-- The exponent that a mantissa should have by its number of digits. -/
def target (mantissa : ℕ) (exponent : ℤ) : ℤ :=
  Format.binary64.targetExponent (totalExponent mantissa exponent)

/-- The exponent that is rounded to leaves 53 digits, or is the lowest there is. -/
theorem target_eq (mantissa : ℕ) (exponent : ℤ) :
    target mantissa exponent = max (mantissa.log2 + exponent - 52) (-1074) := by
  have digits : (Format.binary64.mantissaBits : ℤ) = 53 := rfl
  have least : Format.binary64.minExponent = -1074 := rfl
  rw [target, Format.targetExponent, totalExponent, digits, least]
  omega

/-- Where the mantissa has digits enough, its target is the spacing of the magnitude. -/
theorem target_eq_spacing {mantissa : ℕ} {exponent : ℤ} {x : ℚ} (least : (mantissa : ℚ) ≤ x)
    (most : x < mantissa + 1) (above : 0 < x) (fine : exponent ≤ target mantissa exponent) :
    target mantissa exponent = spacing (x * 2 ^ exponent) := by
  have scale := two_zpow_pos exponent
  rw [target_eq] at fine ⊢
  obtain rfl | filled := Nat.eq_zero_or_pos mantissa
  · have small : exponent ≤ -1074 := by
      have none : Nat.log2 0 = 0 := rfl
      rw [none] at fine
      omega
    rw [Nat.cast_zero, zero_add] at most
    have tiny : x * 2 ^ exponent < 2 ^ (-1022 : ℤ) :=
      calc x * 2 ^ exponent
        _ < 1 * 2 ^ exponent := mul_lt_mul_of_pos_right most scale
        _ = 2 ^ exponent := one_mul _
        _ ≤ 2 ^ (-1022 : ℤ) := zpow_le_zpow_right₀ one_le_two (by omega)
    have none : Nat.log2 0 = 0 := rfl
    rw [spacing_of_small (mul_pos above scale) tiny, none]
    omega
  · obtain ⟨lower, upper⟩ := (Nat.log2_eq_iff filled.ne').mp rfl
    have enough : (2 : ℚ) ^ mantissa.log2 ≤ x := le_trans (by exact_mod_cast lower) least
    have bounded : x < 2 ^ (mantissa.log2 + 1) :=
      lt_of_lt_of_le most (by exact_mod_cast upper)
    have magnitude : spacing (x * 2 ^ exponent) = max (-1074) (mantissa.log2 + exponent - 52) := by
      refine spacing_eq ?_ ?_
      · rw [zpow_add₀ two_ne_zero, zpow_natCast]
        exact mul_le_mul_of_nonneg_right enough scale.le
      · rw [add_right_comm, zpow_add₀ two_ne_zero]
        refine mul_lt_mul_of_pos_right ?_ scale
        exact_mod_cast bounded
    rw [magnitude, max_comm]

/-- A mantissa that is shifted to its target. -/
theorem shiftToTargetExponent_eq (mantissa : ℕ) (exponent : ℤ) (accuracy : Accuracy) :
    shiftToTargetExponent Format.binary64 mantissa exponent accuracy =
      (ExtendedMantissa.ofMantissaAndAccuracy mantissa accuracy >>>
          (target mantissa exponent - exponent).toNat,
        exponent + (target mantissa exponent - exponent).toNat) := rfl

/-- What rounding makes of a mantissa is brought back to 53 digits, and loses nothing. -/
theorem shiftToTargetExponent_rounded {mantissa : ℕ} {exponent : ℤ} (digits : mantissa ≤ 2 ^ 53)
    (least : -1074 ≤ exponent) (full : 2 ^ 52 ≤ mantissa ∨ exponent = -1074) :
    ∃ final exponent', shiftToTargetExponent Format.binary64 mantissa exponent .exact =
        (⟨final, false, false⟩, exponent') ∧ Canonical final exponent' ∧
      (final : ℚ) * 2 ^ exponent' = mantissa * 2 ^ exponent := by
  rw [shiftToTargetExponent_eq, target_eq]
  obtain below | rfl := Nat.lt_or_eq_of_le digits
  · have log : mantissa.log2 ≤ 52 := by
      obtain rfl | filled := Nat.eq_zero_or_pos mantissa
      · exact Nat.zero_le _
      · exact Nat.le_of_lt_succ ((Nat.log2_lt filled.ne').mpr below)
    have still : (max (mantissa.log2 + exponent - 52) (-1074) - exponent).toNat = 0 := by omega
    rw [still]
    exact ⟨mantissa, exponent, by rw [Nat.cast_zero, add_zero]; rfl, ⟨below, least, full⟩, rfl⟩
  · have log : (2 ^ 53 : ℕ).log2 = 53 := Nat.log2_two_pow
    have once : (max ((2 ^ 53 : ℕ).log2 + exponent - 52) (-1074) - exponent).toNat = 1 := by
      rw [log]
      omega
    rw [once]
    refine ⟨2 ^ 52, exponent + 1, rfl, ⟨by norm_num, by omega, .inl (le_refl _)⟩, ?_⟩
    rw [zpow_add₀ two_ne_zero]
    push_cast
    ring

/-- What is rounded at the target of a mantissa is the nearest number, with no digits to spare. -/
theorem nearest_at_target {mantissa : ℕ} {exponent : ℤ} {x : ℚ} (least : (mantissa : ℚ) ≤ x)
    (most : x < mantissa + 1) (fine : exponent ≤ target mantissa exponent) {shift : ℕ}
    (shifts : exponent + shift = target mantissa exponent) :
    nearest (x * 2 ^ exponent) =
        nearestInteger (x / 2 ^ shift) * 2 ^ target mantissa exponent ∧
      nearestInteger (x / 2 ^ shift) ≤ 2 ^ 53 ∧
      (2 ^ 52 ≤ nearestInteger (x / 2 ^ shift) ∨ target mantissa exponent = -1074) := by
  obtain nothing | above := (le_trans (Nat.cast_nonneg mantissa) least).eq_or_lt
  · subst nothing
    obtain rfl : mantissa = 0 := by exact_mod_cast least.antisymm (Nat.cast_nonneg mantissa)
    have none : nearestInteger 0 = 0 := by exact_mod_cast nearestInteger_intCast 0
    rw [zero_mul, zero_div, none, nearest_zero]
    refine ⟨by simp, by norm_num, .inr ?_⟩
    have log : Nat.log2 0 = 0 := rfl
    rw [target_eq, log] at fine ⊢
    omega
  · have same := target_eq_spacing least most above fine
    have scaled : x / 2 ^ shift = x * 2 ^ exponent / 2 ^ spacing (x * 2 ^ exponent) := by
      rw [← same, ← shifts, zpow_add₀ two_ne_zero, zpow_natCast, mul_comm x,
        mul_div_mul_left _ _ (two_zpow_pos exponent).ne']
    obtain ⟨digits, full⟩ := nearestInteger_bounds (mul_pos above (two_zpow_pos exponent))
    rw [scaled, same]
    exact ⟨rfl, digits, full⟩

/-- Rounding a mantissa, with the bits behind it, gives the nearest number.

Proof: the first shift takes the mantissa to the spacing of the magnitude, where the nearest integer
is the mantissa of the nearest number. It has 53 digits, or it is the next power of two; then a
second shift drops a zero. -/
theorem holds_roundWithAccuracy (sign : Sign) {mantissa : ℕ} {exponent : ℤ} {accuracy : Accuracy}
    {x : ℚ} (describes : Describes (.ofMantissaAndAccuracy mantissa accuracy) x)
    (fine : exponent ≤ target mantissa exponent) :
    Holds (roundWithAccuracy Format.binary64 sign mantissa exponent accuracy) sign
      (nearest (x * 2 ^ exponent)) := by
  obtain ⟨shift, shifts⟩ := Int.le.dest fine
  obtain ⟨extended, shifted, rounds⟩ : ∃ extended,
      shiftToTargetExponent Format.binary64 mantissa exponent accuracy =
        (extended, target mantissa exponent) ∧ Describes extended (x / 2 ^ shift) := by
    refine ⟨_, ?_, describes.shiftRight shift⟩
    have amount : (target mantissa exponent - exponent).toNat = shift := by omega
    rw [shiftToTargetExponent_eq, amount, shifts]
  have own : (ExtendedMantissa.ofMantissaAndAccuracy mantissa accuracy).mantissa = mantissa := by
    cases accuracy with
    | exact => rfl
    | inexact order => cases order <;> rfl
  obtain ⟨lower, upper⟩ := describes.bounds
  rw [own] at lower upper
  obtain ⟨same, digits, full⟩ := nearest_at_target lower upper fine shifts
  rw [← rounds.roundedMantissa_eq] at same digits full
  have least : -1074 ≤ target mantissa exponent := by
    rw [target_eq]
    omega
  obtain ⟨final, exponent', settled, canonical, value⟩ :=
    shiftToTargetExponent_rounded (by exact_mod_cast digits) least (by exact_mod_cast full)
  have result : nearest (x * 2 ^ exponent) = final * 2 ^ exponent' := by
    rw [same, value]
    norm_cast
  rw [result, roundWithAccuracy, shifted]
  dsimp only
  rw [settled]
  split
  next none =>
    dsimp only at none
    rw [none, Nat.cast_zero, zero_mul]
    exact .zero sign
  next some => exact .finite sign (Nat.pos_of_ne_zero some) canonical

end ParamSweep.Number
