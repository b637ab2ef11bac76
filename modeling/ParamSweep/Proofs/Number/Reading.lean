import ParamSweep.Proofs.Number.Arithmetic
import ParamSweep.Proofs.Number.Literal

/-!
# Literals are read as the nearest floats

A decimal with few digits is made from two floats that are exact, in one operation; any other is
made from its units and its power of ten, which are natural numbers of any size. Either way it is
rounded once, so the float that is read from a literal is the one nearest to the number that the
literal is written for.
-/

namespace ParamSweep.Number

open Float.Model Float.Model.UnpackedFloat

/-! ### Natural numbers -/

/-- A natural number of no more than 53 digits is a float. -/
theorem value?_toFloat {n : ℕ} (digits : n < 2 ^ 53) :
    value? n.toUInt64.toFloat = some (n : ℚ) := by
  have made : n.toUInt64.toFloat = .ofModel (.pack
      (UnpackedFloat.normalize Format.binary64 n.toUInt64.toNat 0 .positive)) := rfl
  have same : n.toUInt64.toNat = n := UInt64.toNat_ofNat_of_lt' (by rw [UInt64.size]; omega)
  have near := isNearest_normalize n 0
  rw [zpow_zero, mul_one, Int.cast_natCast] at near
  rw [made, same]
  exact near.value?_eq (isBinary64_natCast digits)

/-- The powers of ten that are floats. -/
theorem value?_powersOfTen : ∀ exponent : Fin 23,
    value? Float.exactlyRepresentablePowersOfTen[exponent] = some (10 ^ exponent.val) := by
  decide +kernel

/-! ### Decimals -/

/-- What is less than half of the smallest float is rounded to zero. -/
theorem nearest_of_tiny {q : ℚ} (nonnegative : 0 ≤ q) (tiny : q < 2 ^ (-1075 : ℤ)) :
    nearest q = 0 := by
  obtain rfl | above := nonnegative.eq_or_lt
  · exact nearest_zero
  · have least : spacing q = -1074 :=
      spacing_of_small above (tiny.trans_le (zpow_le_zpow_right₀ one_le_two (by norm_num)))
    have half : q / 2 ^ (-1074 : ℤ) < 1 / 2 := by
      rw [div_lt_iff₀ (two_zpow_pos _)]
      calc q
        _ < 2 ^ (-1075 : ℤ) := tiny
        _ = 1 / 2 * 2 ^ (-1074 : ℤ) := by
          rw [show (-1074 : ℤ) = 1 + -1075 by norm_num, zpow_add₀ two_ne_zero, zpow_one]
          ring
    have nonneg : 0 ≤ q / 2 ^ (-1074 : ℤ) := div_nonneg nonnegative (two_zpow_pos _).le
    have floor : ⌊q / 2 ^ (-1074 : ℤ)⌋ = 0 :=
      Int.floor_eq_zero_iff.mpr ⟨nonneg, half.trans (by norm_num)⟩
    have none : nearestInteger (q / 2 ^ (-1074 : ℤ)) = 0 := by
      rw [nearestInteger, floor, if_pos (by rw [Int.cast_zero, sub_zero]; exact half)]
    rw [nearest, least, none, Int.cast_zero, zero_mul]

/-- A number of units with many places is rounded to zero. -/
theorem tiny_of_places {units places : ℕ} (many : 2 ^ 11 + units.log2 < places) :
    (units : ℚ) / 10 ^ places < 2 ^ (-1075 : ℤ) := by
  have digits : (units : ℚ) < 2 ^ (units.log2 + 1) := by exact_mod_cast Nat.lt_log2_self
  have powers : (2 : ℚ) ^ places ≤ 10 ^ places := pow_le_pow_left₀ zero_le_two (by norm_num) places
  calc (units : ℚ) / 10 ^ places
    _ ≤ units / 2 ^ places := div_le_div_of_nonneg_left units.cast_nonneg (by positivity) powers
    _ < 2 ^ (units.log2 + 1) / 2 ^ places := div_lt_div_of_pos_right digits (by positivity)
    _ = 2 ^ ((units.log2 + 1 : ℕ) - (places : ℕ) : ℤ) := by
      rw [zpow_sub₀ two_ne_zero, zpow_natCast, zpow_natCast]
    _ ≤ 2 ^ (-1075 : ℤ) := zpow_le_zpow_right₀ one_le_two (by omega)

/-- A natural number of any size is rounded once. -/
theorem holds_ofScientific_whole (units : ℕ) :
    Holds (UnpackedFloat.ofScientific Format.binary64 units 0) .positive (nearest units) := by
  have range : (2 : ℤ) ^ Format.binary64.exponentBits = 2 ^ 11 := rfl
  unfold UnpackedFloat.ofScientific
  split
  next none =>
    rw [none, Nat.cast_zero, nearest_zero]
    exact .zero .positive
  next some =>
    have above : 0 < units := Nat.pos_of_ne_zero some
    have value : ((units * 2 ^ 53 : ℕ) : ℚ) * 2 ^ (-53 : ℤ) = units := by
      push_cast
      rw [zpow_neg]
      exact mul_inv_cancel_right₀ (by norm_num) _
    have made : UnpackedFloat.mul Format.binary64
        (.finite .positive (units <<< Format.binary64.mantissaBits) (-Format.binary64.mantissaBits)
          (by rw [Nat.shiftLeft_eq]; positivity))
        (.finite .positive (10 ^ (0 : ℤ).toNat) 0 (by positivity)) =
        roundWithAccuracy Format.binary64 .positive (units * 2 ^ 53) (-53) .exact := by
      have digits : Format.binary64.mantissaBits = 53 := rfl
      rw [UnpackedFloat.mul]
      simp only [Nat.shiftLeft_eq, digits, Int.toNat_zero, pow_zero, mul_one]
      rfl
    rw [if_neg (by omega), if_neg (by omega), if_pos (le_refl 0), made, ← value]
    refine holds_roundWithAccuracy .positive (.exact _) ?_
    rw [target_eq, log2_mul_two_pow above]
    omega

/-- A decimal of any size is rounded once. -/
theorem holds_ofScientific_pointed (units : ℕ) {places : ℕ} (pointed : 0 < places) :
    Holds (UnpackedFloat.ofScientific Format.binary64 units (-places)) .positive
      (nearest (units / 10 ^ places)) := by
  have range : (2 : ℤ) ^ Format.binary64.exponentBits = 2 ^ 11 := rfl
  unfold UnpackedFloat.ofScientific
  split
  next none =>
    rw [none, Nat.cast_zero, zero_div, nearest_zero]
    exact .zero .positive
  next some =>
    rw [if_neg (by omega)]
    split
    next many =>
      have enough : 2 ^ 11 + units.log2 < places := by omega
      rw [nearest_of_tiny (by positivity) (tiny_of_places enough)]
      exact .zero .positive
    next few =>
      have above : 0 < units := Nat.pos_of_ne_zero some
      have value : (units : ℚ) * 2 ^ (0 : ℤ) / ((10 ^ places : ℕ) * 2 ^ (0 : ℤ)) =
          units / 10 ^ places := by
        push_cast
        simp
      rw [if_neg (by omega), ← value]
      have size : (-(-(places : ℤ))).toNat = places := by omega
      simp only [size]
      exact holds_divCore .positive above (by positivity) 0 0

/-- A decimal without an exponent above zero is turned into the float nearest to it. -/
theorem isNearest_ofScientific (units places : ℕ) :
    IsNearest (units / 10 ^ places) (Float.ofScientific units (decide (0 < places)) places) := by
  unfold Float.ofScientific
  split
  next few =>
    obtain ⟨digits, short⟩ := few
    have dividend := value?_toFloat digits
    have divisor := value?_powersOfTen ⟨places, Nat.lt_succ_of_le short⟩
    split
    next => exact isNearest_div dividend divisor (by positivity)
    next whole =>
      obtain rfl : places = 0 := by simpa using whole
      have product := isNearest_mul dividend divisor
      rw [pow_zero, mul_one] at product
      rw [pow_zero, div_one]
      exact product
  next many =>
    obtain rfl | pointed := Nat.eq_zero_or_pos places
    · rw [pow_zero, div_one]
      exact (holds_ofScientific_whole units).isNearest rfl
    · rw [decide_eq_true pointed, if_pos rfl, Int.negOfNat_eq]
      exact (holds_ofScientific_pointed units pointed).isNearest rfl

/-! ### Literals -/

namespace Literal

/-- The exponent of a literal is not positive: it moves the point to the left. -/
theorem decimal_exponent (text : List Char) : ∃ places : ℕ, (decimal text).exponent = -places :=
  ⟨_, rfl⟩

/-- A literal without a sign is written for a number that is not negative. -/
theorem Denotes.nonneg {text : List Char} {value : ℚ} (denotes : Denotes text value) :
    0 ≤ value := by
  cases denotes <;> positivity

/-- A literal without a sign is read as the float nearest to the number that it is written for. -/
theorem Denotes.isNearest {text : List Char} {value : ℚ} (denotes : Denotes text value) :
    IsNearest value (decimal text).toFloat := by
  obtain ⟨places, exponent⟩ := decimal_exponent text
  have exact : (decimal text).units / 10 ^ places = value := by
    rw [← denotes.exact_decimal, Decimal.exact, exponent, zpow_neg, zpow_natCast, div_eq_mul_inv]
  have sign : decide (-(places : ℤ) < 0) = decide (0 < places) := by
    rw [decide_eq_decide]
    omega
  rw [Decimal.toFloat, exponent, sign, Int.natAbs_neg, Int.natAbs_natCast, ← exact]
  exact isNearest_ofScientific _ places

/-- So is a literal that may have a sign. -/
theorem DenotesSigned.isNearest {text : List Char} {value : ℚ} (denotes : DenotesSigned text value)
    {x : Float} (read : readSigned? text = some x) : IsNearest value x := by
  have unsigned {text : List Char} {value : ℚ} (denotes : Denotes text value) :
      read? text = some (decimal text).toFloat := read?_eq_some.mpr ⟨⟨value, denotes⟩, rfl⟩
  cases denotes with
  | plain denotes =>
    rw [readSigned?.eq_2 text fun rest same => (same ▸ denotes).ne_minus, unsigned denotes] at read
    exact Option.some.inj read ▸ denotes.isNearest
  | minus denotes =>
    rw [readSigned?, unsigned denotes] at read
    exact Option.some.inj read ▸ denotes.isNearest.neg

end Literal

end ParamSweep.Number
