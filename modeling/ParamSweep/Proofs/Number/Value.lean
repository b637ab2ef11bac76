import Mathlib.Algebra.Order.Floor.Ring
import Mathlib.Algebra.Order.Field.Power
import Mathlib.Data.Rat.Floor
import Mathlib.Tactic.Positivity
import ParamSweep.Number.Binary64

/-!
# The rational number that a float stands for

A finite float stands for one rational number, and the numerators and denominators that are formed
from its bits are those of this number. Its ceiling is the ceiling of the number.
-/

namespace ParamSweep.Number

namespace Binary64

/-- The number that a finite value stands for. -/
def value? : Binary64 → Option ℚ
  | .finite negative mantissa exponent =>
    let magnitude : ℚ := mantissa * 2 ^ exponent
    some (if negative then -magnitude else magnitude)
  | .infinite _ => none
  | .notANumber => none

/-- A float can be written as a fraction. -/
theorem denominator_pos (exponent : Int) : 0 < denominator exponent := powerOfTwo_pos _

/-- A magnitude is the quotient of its numerator and its denominator. -/
theorem numerator_div_denominator (mantissa : Nat) (exponent : Int) :
    (numerator mantissa exponent : ℚ) / denominator exponent = mantissa * 2 ^ exponent := by
  have powers : (2 : ℚ) ^ exponent.toNat / 2 ^ (-exponent).toNat = 2 ^ exponent := by
    rw [← zpow_natCast, ← zpow_natCast, ← zpow_sub₀ (by norm_num)]
    congr 1
    omega
  have numerators : (numerator mantissa exponent : ℚ) = mantissa * 2 ^ exponent.toNat := by
    rw [numerator, powerOfTwo, Nat.cast_mul]
    exact congrArg (_ * ·) (Nat.cast_pow 2 _)
  have denominators : (denominator exponent : ℚ) = 2 ^ (-exponent).toNat := Nat.cast_pow 2 _
  rw [numerators, denominators, mul_div_assoc, powers]

/-- The quotient of two natural numbers, rounded up. -/
theorem ceil_div {dividend divisor : Nat} (positive : 0 < divisor) :
    ⌈(dividend : ℚ) / divisor⌉₊ = (dividend + (divisor - 1)) / divisor := by
  refine eq_of_forall_ge_iff fun bound => ?_
  have divisorPositive : (0 : ℚ) < divisor := Nat.cast_pos.mpr positive
  rw [Nat.ceil_le, div_le_iff₀ divisorPositive, Nat.div_le_iff_le_mul_add_pred positive]
  norm_cast
  rw [Nat.mul_comm divisor bound]
  omega

/-- The ceiling of a finite value is that of the number it stands for. -/
theorem ceiling?_eq (exact : Binary64) : exact.ceiling? = exact.value?.map Nat.ceil := by
  cases exact with
  | finite negative mantissa exponent =>
    cases negative with
    | true =>
      have below : -((mantissa : ℚ) * 2 ^ exponent) ≤ 0 := neg_nonpos.mpr (by positivity)
      rw [ceiling?, value?, Option.map_some, if_pos rfl, Nat.ceil_eq_zero.mpr below]
    | false =>
      rw [ceiling?, value?, Option.map_some, if_neg Bool.false_ne_true,
        ← numerator_div_denominator, ceil_div (denominator_pos _)]
  | infinite negative => rfl
  | notANumber => rfl

end Binary64

/-- The number that a finite float stands for. -/
def value? (x : Float) : Option ℚ := (Binary64.ofFloat x).value?

/-- The ceiling of a float is that of the number it stands for. -/
theorem ceiling?_eq (x : Float) : ceiling? x = (value? x).map Nat.ceil :=
  (Binary64.ofFloat x).ceiling?_eq

end ParamSweep.Number
