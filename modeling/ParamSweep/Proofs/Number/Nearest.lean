import Mathlib.Algebra.Order.Floor.Ring
import Mathlib.Data.Int.Log
import Mathlib.Data.Rat.Floor
import Mathlib.Tactic.Linarith
import Mathlib.Tactic.Positivity
import Mathlib.Tactic.Ring

/-!
# The nearest number with 53 binary digits

Binary64 numbers of one magnitude are the multiples of one power of two, the spacing. A rational
number is rounded to the nearest multiple of its own spacing, and of two equally near ones to the
even one. A number that is such a multiple already, with no more than 53 digits, stays what it is.

Nothing here depends on how floats are stored or how they are computed with.
-/

namespace ParamSweep.Number

/-- The integer nearest to a number; of two equally near ones the even one. -/
def nearestInteger (q : ℚ) : ℤ :=
  if q - ⌊q⌋ < 1 / 2 then ⌊q⌋
  else if 1 / 2 < q - ⌊q⌋ then ⌊q⌋ + 1
  else ⌊q⌋ + ⌊q⌋ % 2

/-- The exponent of the spacing of the binary64 numbers of some magnitude. -/
def spacing (q : ℚ) : ℤ := max (-1074) (Int.log 2 |q| - 52)

/-- The nearest number that is written with 53 binary digits and an exponent that is not less than
that of the smallest binary64 numbers; of two equally near ones the even one. -/
def nearest (q : ℚ) : ℚ := nearestInteger (q / 2 ^ spacing q) * 2 ^ spacing q

/-- Finite binary64 numbers are below this bound. -/
def bound : ℚ := 2 ^ 1024

/-! ### Integers -/

/-- An integer is the one nearest to itself. -/
@[simp] theorem nearestInteger_intCast (n : ℤ) : nearestInteger n = n := by
  simp [nearestInteger]

/-- The nearest integer is one of the two neighbours, and the upper one only of a number between
them. -/
theorem nearestInteger_cases (q : ℚ) :
    nearestInteger q = ⌊q⌋ ∨ nearestInteger q = ⌊q⌋ + 1 ∧ (⌊q⌋ : ℚ) < q := by
  unfold nearestInteger
  split_ifs with before behind
  · exact .inl rfl
  · exact .inr ⟨rfl, by linarith⟩
  · obtain even | odd := Int.emod_two_eq_zero_or_one ⌊q⌋
    · exact .inl (by rw [even, add_zero])
    · exact .inr ⟨by rw [odd], by linarith⟩

/-- Rounding does not fall below an integer that the number is not below. -/
theorem le_nearestInteger {n : ℤ} {q : ℚ} (below : (n : ℚ) ≤ q) : n ≤ nearestInteger q := by
  have floor := Int.le_floor.mpr below
  obtain same | ⟨same, -⟩ := nearestInteger_cases q <;> omega

/-- Nor does it rise above one that the number is not above. -/
theorem nearestInteger_le {n : ℤ} {q : ℚ} (above : q ≤ n) : nearestInteger q ≤ n := by
  obtain same | ⟨same, apart⟩ := nearestInteger_cases q
  · rw [same]
    exact Int.floor_le_iff.mpr (by linarith)
  · rw [same]
    have below : (⌊q⌋ : ℚ) < n := lt_of_lt_of_le apart above
    exact Int.add_one_le_of_lt (by exact_mod_cast below)

/-- What is at most a half away from an integer is rounded to it, and what is just a half away only
if the integer is even. -/
theorem nearestInteger_eq {q : ℚ} {n : ℤ} (least : n - 1 / 2 ≤ q) (most : q ≤ n + 1 / 2)
    (tie : q = n - 1 / 2 ∨ q = n + 1 / 2 → n % 2 = 0) : nearestInteger q = n := by
  obtain below | above := lt_or_ge q n
  · have floor : ⌊q⌋ = n - 1 := by
      refine Int.floor_eq_iff.mpr ⟨?_, ?_⟩ <;> push_cast <;> linarith
    unfold nearestInteger
    rw [floor]
    push_cast
    split_ifs with before behind
    · linarith
    · omega
    · have even := tie (.inl (by linarith))
      omega
  · have floor : ⌊q⌋ = n := Int.floor_eq_iff.mpr ⟨above, by linarith⟩
    unfold nearestInteger
    rw [floor]
    split_ifs with before behind
    · rfl
    · linarith
    · have even := tie (.inr (by linarith))
      omega

/-- No integer is nearer. -/
theorem abs_nearestInteger_sub_le (q : ℚ) (n : ℤ) :
    |(nearestInteger q : ℚ) - q| ≤ |(n : ℚ) - q| := by
  have least := Int.floor_le q
  have most := Int.lt_floor_add_one q
  have apart : min (q - ⌊q⌋) (⌊q⌋ + 1 - q) ≤ |(n : ℚ) - q| := by
    obtain below | above := le_or_gt n ⌊q⌋
    · have lower : (n : ℚ) ≤ ⌊q⌋ := by exact_mod_cast below
      rw [abs_of_nonpos (by linarith)]
      exact min_le_of_left_le (by linarith)
    · have upper : (⌊q⌋ : ℚ) + 1 ≤ n := by exact_mod_cast above
      rw [abs_of_nonneg (by linarith)]
      exact min_le_of_right_le (by linarith)
  refine le_trans ?_ apart
  unfold nearestInteger
  split_ifs with before behind
  · rw [abs_of_nonpos (by linarith)]
    exact le_min (by linarith) (by linarith)
  · push_cast
    rw [abs_of_nonneg (by linarith)]
    exact le_min (by linarith) (by linarith)
  · obtain even | odd := Int.emod_two_eq_zero_or_one ⌊q⌋
    · rw [even, add_zero, abs_of_nonpos (by linarith)]
      exact le_min (by linarith) (by linarith)
    · rw [odd]
      push_cast
      rw [abs_of_nonneg (by linarith)]
      exact le_min (by linarith) (by linarith)

/-- Rounding does not depend on the sign. -/
theorem nearestInteger_neg (q : ℚ) : nearestInteger (-q) = -nearestInteger q := by
  by_cases whole : (⌊q⌋ : ℚ) = q
  · rw [← whole, ← Int.cast_neg, nearestInteger_intCast, nearestInteger_intCast]
  · have apart : (⌊q⌋ : ℚ) < q := lt_of_le_of_ne (Int.floor_le q) whole
    have floor : ⌊-q⌋ = -⌊q⌋ - 1 := by
      refine Int.floor_eq_iff.mpr ⟨?_, ?_⟩
      · push_cast
        linarith [Int.lt_floor_add_one q]
      · push_cast
        linarith
    have rest : -q - (⌊-q⌋ : ℤ) = 1 - (q - ⌊q⌋) := by
      rw [floor]
      push_cast
      ring
    unfold nearestInteger
    rw [rest, floor]
    split_ifs <;> first | omega | (exfalso; linarith)

/-! ### Numbers -/

/-- Powers of two are above zero. -/
theorem two_zpow_pos (exponent : ℤ) : (0 : ℚ) < 2 ^ exponent := zpow_pos (by norm_num) exponent

/-- Opposite numbers have opposite nearest numbers. -/
theorem nearest_neg (q : ℚ) : nearest (-q) = -nearest q := by
  have same : spacing (-q) = spacing q := by rw [spacing, spacing, abs_neg]
  rw [nearest, nearest, same, neg_div, nearestInteger_neg, Int.cast_neg, neg_mul]

/-- Zero needs no rounding. -/
@[simp] theorem nearest_zero : nearest 0 = 0 := by
  have none : nearestInteger 0 = 0 := by exact_mod_cast nearestInteger_intCast 0
  rw [nearest, zero_div, none, Int.cast_zero, zero_mul]

/-- Rounding does not change a sign. -/
theorem nearest_nonneg {q : ℚ} (nonnegative : 0 ≤ q) : 0 ≤ nearest q := by
  have whole : 0 ≤ nearestInteger (q / 2 ^ spacing q) := by
    refine le_nearestInteger ?_
    rw [Int.cast_zero]
    exact div_nonneg nonnegative (two_zpow_pos _).le
  exact mul_nonneg (by exact_mod_cast whole) (two_zpow_pos _).le

/-- The spacing of a magnitude that is known up to a factor of two. -/
theorem spacing_eq {q : ℚ} {exponent : ℤ} (least : 2 ^ exponent ≤ q)
    (most : q < 2 ^ (exponent + 1)) : spacing q = max (-1074) (exponent - 52) := by
  have positive : 0 < q := lt_of_lt_of_le (two_zpow_pos exponent) least
  have log : Int.log 2 q = exponent := by
    have below := (Int.zpow_le_iff_le_log Nat.one_lt_two positive).mp (by exact_mod_cast least)
    have above := (Int.lt_zpow_iff_log_lt Nat.one_lt_two positive).mp (by exact_mod_cast most)
    omega
  rw [spacing, abs_of_pos positive, log]

/-- The spacing of the smallest magnitudes. -/
theorem spacing_of_small {q : ℚ} (positive : 0 < q) (small : q < 2 ^ (-1022 : ℤ)) :
    spacing q = -1074 := by
  have above := (Int.lt_zpow_iff_log_lt Nat.one_lt_two positive).mp (by exact_mod_cast small)
  rw [spacing, abs_of_pos positive]
  omega

/-- A magnitude has at most 53 digits before its spacing, and as many unless the spacing is the
least. -/
theorem nearestInteger_bounds {q : ℚ} (positive : 0 < q) :
    nearestInteger (q / 2 ^ spacing q) ≤ 2 ^ 53 ∧
      (2 ^ 52 ≤ nearestInteger (q / 2 ^ spacing q) ∨ spacing q = -1074) := by
  have scale := two_zpow_pos (spacing q)
  have known : spacing q = max (-1074) (Int.log 2 q - 52) := by rw [spacing, abs_of_pos positive]
  constructor
  · refine nearestInteger_le ?_
    rw [div_le_iff₀ scale]
    calc q
      _ ≤ 2 ^ (Int.log 2 q + 1) := by exact_mod_cast (Int.lt_zpow_succ_log_self Nat.one_lt_two q).le
      _ ≤ 2 ^ (53 + spacing q) := zpow_le_zpow_right₀ one_le_two (by omega)
      _ = ((2 ^ 53 : ℤ) : ℚ) * 2 ^ spacing q := by
        rw [zpow_add₀ two_ne_zero]
        norm_num
  · by_cases small : spacing q = -1074
    · exact .inr small
    · refine .inl (le_nearestInteger ?_)
      rw [le_div_iff₀ scale]
      calc ((2 ^ 52 : ℤ) : ℚ) * 2 ^ spacing q
        _ = 2 ^ (52 + spacing q) := by
          rw [zpow_add₀ two_ne_zero]
          norm_num
        _ = 2 ^ Int.log 2 q := by
          congr 1
          omega
        _ ≤ q := by exact_mod_cast Int.zpow_log_le_self Nat.one_lt_two positive

/-- A multiple of a power of two with no more than 53 digits stays what it is. -/
theorem nearest_eq_self {mantissa exponent : ℤ} (digits : |mantissa| < 2 ^ 53)
    (least : -1074 ≤ exponent) :
    nearest (mantissa * 2 ^ exponent) = mantissa * 2 ^ exponent := by
  obtain rfl | nonzero := eq_or_ne mantissa 0
  · simp
  · have fine : spacing (mantissa * 2 ^ exponent) ≤ exponent := by
      have positive : 0 < |(mantissa : ℚ) * 2 ^ exponent| :=
        abs_pos.mpr (mul_ne_zero (Int.cast_ne_zero.mpr nonzero) (two_zpow_pos exponent).ne')
      have below : |(mantissa : ℚ) * 2 ^ exponent| < 2 ^ (53 + exponent) := by
        rw [abs_mul, abs_of_pos (two_zpow_pos exponent), zpow_add₀ two_ne_zero]
        refine mul_lt_mul_of_pos_right ?_ (two_zpow_pos exponent)
        exact_mod_cast digits
      have log := (Int.lt_zpow_iff_log_lt Nat.one_lt_two positive).mp (by exact_mod_cast below)
      rw [spacing]
      omega
    obtain ⟨shift, parts⟩ := Int.le.dest fine
    have whole : (mantissa : ℚ) * 2 ^ exponent / 2 ^ spacing (mantissa * 2 ^ exponent) =
        (mantissa * 2 ^ shift : ℤ) := by
      rw [mul_div_assoc, ← zpow_sub₀ two_ne_zero]
      have difference : exponent - spacing (mantissa * 2 ^ exponent) = shift := by omega
      rw [difference, zpow_natCast]
      push_cast
      rfl
    rw [nearest, whole, nearestInteger_intCast, ← whole]
    exact div_mul_cancel₀ _ (two_zpow_pos _).ne'

/-- The numbers that finite floats stand for. -/
structure IsBinary64 (q : ℚ) : Prop where
  digits : ∃ mantissa exponent : ℤ, |mantissa| < 2 ^ 53 ∧ -1074 ≤ exponent ∧
    q = mantissa * 2 ^ exponent
  bounded : |q| < bound

/-- A number of 53 digits that is in range needs no rounding. -/
theorem IsBinary64.nearest_eq {q : ℚ} (isBinary64 : IsBinary64 q) : nearest q = q := by
  obtain ⟨mantissa, exponent, digits, least, rfl⟩ := isBinary64.digits
  exact nearest_eq_self digits least

/-- A natural number of 53 digits has so many with a sign, too. -/
theorem abs_natCast_lt {n : ℕ} (digits : n < 2 ^ 53) : |(n : ℤ)| < 2 ^ 53 := by
  rw [Nat.abs_cast]
  exact_mod_cast digits

/-- Natural numbers of no more than 53 digits are among them. -/
theorem isBinary64_natCast {n : ℕ} (digits : n < 2 ^ 53) : IsBinary64 n := by
  refine ⟨⟨n, 0, abs_natCast_lt digits, by norm_num, by simp⟩, ?_⟩
  rw [Nat.abs_cast, bound]
  exact lt_trans (by exact_mod_cast digits) (pow_lt_pow_right₀ one_lt_two (by norm_num))

/-- Floats come with both signs. -/
theorem IsBinary64.neg {q : ℚ} (isBinary64 : IsBinary64 q) : IsBinary64 (-q) := by
  obtain ⟨⟨mantissa, exponent, digits, least, rfl⟩, bounded⟩ := isBinary64
  refine ⟨⟨-mantissa, exponent, by rwa [abs_neg], least, ?_⟩, by rwa [abs_neg]⟩
  push_cast
  exact (neg_mul _ _).symm

/-- A multiple of the spacing is not nearer than the nearest number. -/
theorem abs_nearest_sub_le_multiple (q : ℚ) (multiple : ℤ) :
    |nearest q - q| ≤ |multiple * 2 ^ spacing q - q| := by
  have scale := two_zpow_pos (spacing q)
  have scaled (n : ℤ) :
      |(n : ℚ) * 2 ^ spacing q - q| = |n - q / 2 ^ spacing q| * 2 ^ spacing q := by
    rw [← abs_of_pos scale, ← abs_mul, sub_mul, abs_of_pos scale, div_mul_cancel₀ _ scale.ne']
  rw [nearest, scaled, scaled]
  exact mul_le_mul_of_nonneg_right (abs_nearestInteger_sub_le _ multiple) scale.le

/-- No number that a float stands for is nearer than the nearest number.

Proof: a number as coarse as the spacing is one of its multiples. A finer one is below the least
magnitude that has this spacing, and this magnitude is a multiple and lies between the two. -/
theorem abs_nearest_sub_le_of_pos {q y : ℚ} (above : 0 < q) (isBinary64 : IsBinary64 y) :
    |nearest q - q| ≤ |y - q| := by
  obtain ⟨mantissa, exponent, digits, least, rfl⟩ := isBinary64.digits
  obtain coarse | fine := le_or_gt (spacing q) exponent
  · obtain ⟨shift, rfl⟩ := Int.le.dest coarse
    have multiple : (mantissa : ℚ) * 2 ^ (spacing q + shift) =
        (mantissa * 2 ^ shift : ℤ) * 2 ^ spacing q := by
      rw [zpow_add₀ two_ne_zero, zpow_natCast]
      push_cast
      ring
    rw [multiple]
    exact abs_nearest_sub_le_multiple q _
  · have known : spacing q = Int.log 2 q - 52 := by
      rw [spacing, abs_of_pos above] at fine ⊢
      omega
    have corner : ((2 ^ 52 : ℤ) : ℚ) * 2 ^ spacing q ≤ q := by
      have log : (2 : ℚ) ^ Int.log 2 q ≤ q := by
        exact_mod_cast Int.zpow_log_le_self Nat.one_lt_two above
      refine le_of_eq_of_le ?_ log
      rw [known, zpow_sub₀ two_ne_zero]
      push_cast
      field_simp
    have below : (mantissa : ℚ) * 2 ^ exponent ≤ ((2 ^ 52 : ℤ) : ℚ) * 2 ^ spacing q :=
      calc (mantissa : ℚ) * 2 ^ exponent
        _ ≤ 2 ^ 53 * 2 ^ exponent := by
          refine mul_le_mul_of_nonneg_right ?_ (two_zpow_pos exponent).le
          exact_mod_cast (le_abs_self mantissa).trans digits.le
        _ = 2 ^ 52 * 2 ^ (exponent + 1) := by
          rw [zpow_add_one₀ two_ne_zero]
          ring
        _ ≤ ((2 ^ 52 : ℤ) : ℚ) * 2 ^ spacing q := by
          push_cast
          exact mul_le_mul_of_nonneg_left (zpow_le_zpow_right₀ one_le_two fine) (by positivity)
    refine (abs_nearest_sub_le_multiple q (2 ^ 52)).trans ?_
    rw [abs_of_nonpos (by linarith), abs_of_nonpos (by linarith)]
    linarith

/-- No number of 53 digits that is in range is nearer than the nearest number. -/
theorem abs_nearest_sub_le (q : ℚ) {y : ℚ} (isBinary64 : IsBinary64 y) :
    |nearest q - q| ≤ |y - q| := by
  obtain below | rfl | above := lt_trichotomy q 0
  · have mirrored := abs_nearest_sub_le_of_pos (neg_pos.mpr below) isBinary64.neg
    rwa [nearest_neg, ← neg_sub', ← neg_sub', abs_neg, abs_neg] at mirrored
  · rw [nearest_zero, sub_zero, abs_zero]
    exact abs_nonneg _
  · exact abs_nearest_sub_le_of_pos above isBinary64

end ParamSweep.Number
