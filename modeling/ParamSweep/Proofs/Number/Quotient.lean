import Mathlib.Data.Nat.Factorization.Basic
import ParamSweep.Proofs.Number.Nearest

/-!
# Quotients that are counted right

A quotient is rounded before its ceiling is taken, so a quotient just above a natural number may
lose its last step. It does not where dividend and divisor are multiples of one unit, with no more
than 53 digits each: then the quotient stays away from the natural number below it by more than
rounding can take. And a quotient of two floats that is a natural number is a float itself, whatever
its size.
-/

namespace ParamSweep.Number

/-! ### Rounding near natural numbers -/

/-- What is more than half above a whole number is rounded to a greater one. -/
theorem lt_nearestInteger {n : ℤ} {q : ℚ} (beyond : n + 1 / 2 < q) : n < nearestInteger q := by
  have floor : n ≤ ⌊q⌋ := Int.le_floor.mpr (by linarith)
  obtain same | more := floor.eq_or_lt
  · have behind : 1 / 2 < q - (⌊q⌋ : ℤ) := by
      rw [← same]
      linarith
    rw [nearestInteger, if_neg (by linarith), if_pos behind]
    omega
  · exact more.trans_le (le_nearestInteger (Int.floor_le q))

variable {q : ℚ} {n : ℕ}

/-- Natural numbers are multiples of a spacing that is not above one. -/
theorem exists_multiple (n : ℕ) (fine : spacing q ≤ 0) :
    ∃ multiple : ℤ, (n : ℚ) = multiple * 2 ^ spacing q := by
  obtain ⟨shift, same⟩ := Int.le.dest fine
  refine ⟨n * 2 ^ shift, ?_⟩
  push_cast
  rw [mul_assoc, ← zpow_natCast, ← zpow_add₀ two_ne_zero, add_comm (shift : ℤ), same, zpow_zero,
    mul_one]

/-- Where the floats are no coarser than whole numbers, nothing is rounded below a whole number that
is not above it. -/
theorem le_nearest (fine : spacing q ≤ 0) (below : (n : ℚ) ≤ q) : (n : ℚ) ≤ nearest q := by
  obtain ⟨multiple, same⟩ := exists_multiple n fine
  have scale := two_zpow_pos (spacing q)
  have whole : multiple ≤ nearestInteger (q / 2 ^ spacing q) := by
    refine le_nearestInteger ((le_div_iff₀ scale).mpr ?_)
    rwa [← same]
  rw [same, nearest]
  exact mul_le_mul_of_nonneg_right (by exact_mod_cast whole) scale.le

/-- Nor above one that is not below it. -/
theorem nearest_le (fine : spacing q ≤ 0) (above : q ≤ n) : nearest q ≤ n := by
  obtain ⟨multiple, same⟩ := exists_multiple n fine
  have scale := two_zpow_pos (spacing q)
  have whole : nearestInteger (q / 2 ^ spacing q) ≤ multiple := by
    refine nearestInteger_le ((div_le_iff₀ scale).mpr ?_)
    rwa [← same]
  rw [same, nearest]
  exact mul_le_mul_of_nonneg_right (by exact_mod_cast whole) scale.le

/-- What is further above a natural number than half of the spacing is not rounded to it. -/
theorem lt_nearest (fine : spacing q ≤ 0) (beyond : n + 2 ^ spacing q / 2 < q) :
    (n : ℚ) < nearest q := by
  obtain ⟨multiple, same⟩ := exists_multiple n fine
  have scale := two_zpow_pos (spacing q)
  have whole : multiple < nearestInteger (q / 2 ^ spacing q) := by
    refine lt_nearestInteger ((lt_div_iff₀ scale).mpr ?_)
    rw [add_mul, ← same]
    linarith
  rw [same, nearest]
  exact mul_lt_mul_of_pos_right (by exact_mod_cast whole) scale

/-- Numbers below `2 ^ 53` have a spacing that is not above one. -/
theorem spacing_nonpos (nonnegative : 0 ≤ q) (small : q < 2 ^ 53) : spacing q ≤ 0 := by
  have log : Int.log 2 |q| < 53 := by
    rw [abs_of_nonneg nonnegative]
    obtain rfl | above := nonnegative.eq_or_lt
    · rw [Int.log_zero_right]
      norm_num
    · exact (Int.lt_zpow_iff_log_lt Nat.one_lt_two above).mp (by exact_mod_cast small)
  rw [spacing]
  omega

/-! ### Ceilings -/

variable {dividend divisor : ℕ}

/-- Half of the spacing of a quotient is less than a unit of its divisor. -/
theorem half_spacing_lt (above : 0 < dividend) (digits : dividend < 2 ^ 53) (above' : 0 < divisor)
    (digits' : divisor < 2 ^ 53) :
    (2 : ℚ) ^ spacing ((dividend : ℚ) / divisor) / 2 < 1 / divisor := by
  have size : (0 : ℚ) < divisor := Nat.cast_pos.mpr above'
  have quotient : (0 : ℚ) < (dividend : ℚ) / divisor := div_pos (Nat.cast_pos.mpr above) size
  have halved (exponent : ℤ) : (2 : ℚ) ^ exponent / 2 = 2 ^ (exponent - 1) := by
    rw [zpow_sub_one₀ two_ne_zero, div_eq_mul_inv]
  have known : spacing ((dividend : ℚ) / divisor) =
      max (-1074) (Int.log 2 ((dividend : ℚ) / divisor) - 52) := by
    rw [spacing, abs_of_pos quotient]
  rw [halved]
  obtain least | larger := max_choice (-1074) (Int.log 2 ((dividend : ℚ) / divisor) - 52)
  · rw [known, least, lt_div_iff₀ size]
    calc (2 : ℚ) ^ (-1074 - 1 : ℤ) * divisor
      _ < 2 ^ (-1074 - 1 : ℤ) * 2 ^ 53 :=
        mul_lt_mul_of_pos_left (by exact_mod_cast digits') (two_zpow_pos _)
      _ ≤ 1 := by
        rw [← zpow_natCast, ← zpow_add₀ two_ne_zero]
        exact zpow_le_one_of_nonpos₀ one_le_two (by norm_num)
  · rw [known, larger, sub_sub, zpow_sub₀ two_ne_zero, div_lt_div_iff₀ (by positivity) size]
    have log : (2 : ℚ) ^ Int.log 2 ((dividend : ℚ) / divisor) ≤ dividend / divisor := by
      exact_mod_cast Int.zpow_log_le_self Nat.one_lt_two quotient
    calc (2 : ℚ) ^ Int.log 2 ((dividend : ℚ) / divisor) * divisor
      _ ≤ dividend / divisor * divisor := mul_le_mul_of_nonneg_right log size.le
      _ = dividend := div_mul_cancel₀ _ size.ne'
      _ < 1 * 2 ^ (52 + 1 : ℤ) := by
        norm_num
        exact_mod_cast digits

/-- Rounding a quotient of moderate numbers does not change its ceiling. -/
theorem ceil_nearest_div (digits : dividend < 2 ^ 53) (above' : 0 < divisor)
    (digits' : divisor < 2 ^ 53) :
    ⌈nearest ((dividend : ℚ) / divisor)⌉₊ = ⌈(dividend : ℚ) / divisor⌉₊ := by
  obtain rfl | above := Nat.eq_zero_or_pos dividend
  · rw [Nat.cast_zero, zero_div, nearest_zero]
  · have size : (0 : ℚ) < divisor := Nat.cast_pos.mpr above'
    have quotient : (0 : ℚ) < (dividend : ℚ) / divisor := div_pos (Nat.cast_pos.mpr above) size
    have small : (dividend : ℚ) / divisor < 2 ^ 53 := by
      rw [div_lt_iff₀ size]
      calc (dividend : ℚ)
        _ < 2 ^ 53 := by exact_mod_cast digits
        _ ≤ 2 ^ 53 * divisor := le_mul_of_one_le_right (by positivity) (by exact_mod_cast above')
    have fine := spacing_nonpos quotient.le small
    obtain ⟨steps, count⟩ : ∃ steps, ⌈(dividend : ℚ) / divisor⌉₊ = steps + 1 :=
      Nat.exists_eq_add_one_of_ne_zero (Nat.ceil_pos.mpr quotient).ne'
    obtain ⟨beyond, within⟩ := (Nat.ceil_eq_iff (Nat.succ_ne_zero steps)).mp count
    rw [Nat.succ_sub_one] at beyond
    -- the quotient is a multiple of one part of the divisor, and so is the natural number below it
    have gap : (steps : ℚ) + 1 / divisor ≤ dividend / divisor := by
      rw [le_div_iff₀ size, add_mul, one_div_mul_cancel size.ne']
      rw [lt_div_iff₀ size] at beyond
      exact_mod_cast Nat.succ_le_of_lt (by exact_mod_cast beyond)
    have half := half_spacing_lt above digits above' digits'
    rw [count]
    refine (Nat.ceil_eq_iff (Nat.succ_ne_zero steps)).mpr ⟨?_, nearest_le fine within⟩
    rw [Nat.succ_sub_one]
    exact lt_nearest fine (by linarith)

/-- Rounding a quotient below `2 ^ 53` takes at most one from its ceiling, and adds nothing. -/
theorem ceil_nearest_bounds (nonnegative : 0 ≤ q) (small : q < 2 ^ 53) :
    ⌈nearest q⌉₊ ≤ ⌈q⌉₊ ∧ ⌈q⌉₊ ≤ ⌈nearest q⌉₊ + 1 := by
  have fine := spacing_nonpos nonnegative small
  constructor
  · exact Nat.ceil_le.mpr (nearest_le fine (Nat.le_ceil q))
  · have floor : (⌊q⌋₊ : ℚ) ≤ ⌈nearest q⌉₊ :=
      (le_nearest fine (Nat.floor_le nonnegative)).trans (Nat.le_ceil _)
    calc ⌈q⌉₊
      _ ≤ ⌊q⌋₊ + 1 := Nat.ceil_le_floor_add_one q
      _ ≤ ⌈nearest q⌉₊ + 1 := Nat.succ_le_succ (by exact_mod_cast floor)

/-! ### Whole quotients -/

/-- A natural number has no more digits than its product with another natural number, shifted. -/
theorem exists_digits {product factor n shift : ℕ} (digits : product < 2 ^ 53) (odd : Odd factor)
    (same : product * 2 ^ shift = n * factor) :
    ∃ mantissa < 2 ^ 53, n = mantissa * 2 ^ shift := by
  have divides : factor ∣ product :=
    (Nat.Coprime.pow_right shift odd.coprime_two_right).dvd_of_dvd_mul_right
      ⟨n, same.trans (Nat.mul_comm n factor)⟩
  obtain ⟨mantissa, rfl⟩ := divides
  refine ⟨mantissa, lt_of_le_of_lt (Nat.le_mul_of_pos_left _ odd.pos) digits, ?_⟩
  refine Nat.eq_of_mul_eq_mul_left odd.pos ?_
  rw [Nat.mul_comm factor n, ← same, Nat.mul_assoc]

/-- Where the quotient of two numbers that floats stand for is a natural number, it is one of these
numbers, too. -/
theorem nearest_of_whole {total step : ℚ} (isTotal : IsBinary64 total) (isStep : IsBinary64 step)
    (above : 0 < step) (whole : total = n * step) : nearest n = n := by
  obtain ⟨product, exponent, digits, -, rfl⟩ := isTotal.digits
  obtain ⟨divisor, exponent', -, -, rfl⟩ := isStep.digits
  have positive : 0 < divisor := by
    exact_mod_cast pos_of_mul_pos_left above (two_zpow_pos exponent').le
  have nonnegative : 0 ≤ product := by
    have size : (0 : ℚ) ≤ product * 2 ^ exponent := whole ▸ mul_nonneg n.cast_nonneg above.le
    exact_mod_cast nonneg_of_mul_nonneg_left size (two_zpow_pos exponent)
  lift product to ℕ using nonnegative
  lift divisor to ℕ using positive.le
  obtain ⟨twos, factor, odd, rfl⟩ := Nat.exists_eq_two_pow_mul_odd (Nat.cast_pos.mp positive).ne'
  have bounded : product < 2 ^ 53 := by
    rw [Nat.abs_cast] at digits
    exact_mod_cast digits
  have scaled : (product : ℚ) * 2 ^ (exponent - (exponent' + twos)) = n * factor := by
    push_cast at whole
    rw [zpow_sub₀ two_ne_zero, ← mul_div_assoc, div_eq_iff (two_zpow_pos _).ne', whole,
      zpow_add₀ two_ne_zero, zpow_natCast]
    ring
  obtain ⟨shift, same | same⟩ := Int.eq_nat_or_neg (exponent - (exponent' + twos))
  · rw [same, zpow_natCast] at scaled
    obtain ⟨mantissa, digits, rfl⟩ := exists_digits bounded odd (by exact_mod_cast scaled)
    have kept := nearest_eq_self (abs_natCast_lt digits) (by omega : -1074 ≤ (shift : ℤ))
    rw [zpow_natCast, Int.cast_natCast] at kept
    exact_mod_cast kept
  · have multiple : product = n * factor * 2 ^ shift := by
      rw [same, zpow_neg, zpow_natCast, ← div_eq_mul_inv, div_eq_iff (by positivity)] at scaled
      exact_mod_cast scaled
    have digits : n < 2 ^ 53 :=
      calc n
        _ ≤ n * (factor * 2 ^ shift) :=
          Nat.le_mul_of_pos_right n (Nat.mul_pos odd.pos (Nat.two_pow_pos shift))
        _ = product := by rw [multiple, Nat.mul_assoc]
        _ < 2 ^ 53 := bounded
    exact (isBinary64_natCast digits).nearest_eq

end ParamSweep.Number
