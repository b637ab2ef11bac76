import ParamSweep.Proofs.Domain.Declaration
import ParamSweep.Proofs.Number.Fixed

/-!
# The shortest text reads back

The text of a finite float is that of a decimal in its rounding interval. Every number of this
interval is rounded to the float: the ends are half-way to the neighbours and belong to it where the
mantissa is even, and below the least mantissa of a binade the spacing is half as wide, and so is
the interval. The search leaves the interval nowhere, since the finest grid has the float itself.

A float is known by its number and, if that is zero, by its sign, and the text has both. So it is
read as the same float and not only as an equal one.
-/

namespace ParamSweep.Number

open Formula (DigitRun)
open Literal (Denotes DenotesSigned ReadsAs positional)
open Float.Model Float.Model.UnpackedFloat

/-! ### The interval -/

namespace RoundingInterval

/-- The numbers of the interval. -/
def Contains (interval : RoundingInterval) (q : ℚ) : Prop :=
  if interval.closed then
    interval.lower / interval.denominator ≤ q ∧ q ≤ interval.upper / interval.denominator
  else interval.lower / interval.denominator < q ∧ q < interval.upper / interval.denominator

/-- A grid spacing is the quotient of its numerator and its denominator. -/
theorem spacing_div_fineness (exponent : ℤ) :
    (spacing exponent : ℚ) / fineness exponent = 10 ^ exponent := by
  have above : (spacing exponent : ℚ) = 10 ^ exponent.toNat := Nat.cast_pow 10 _
  have below : (fineness exponent : ℚ) = 10 ^ (-exponent).toNat := Nat.cast_pow 10 _
  rw [above, below, ← zpow_natCast, ← zpow_natCast, ← zpow_sub₀ (by norm_num)]
  congr 1
  omega

/-- The test of a grid point finds out whether it is a number of the interval. -/
theorem covers_iff {interval : RoundingInterval} (divides : 0 < interval.denominator)
    (exponent : ℤ) (units : ℕ) :
    interval.covers exponent units = true ↔ interval.Contains (units * 10 ^ exponent) := by
  have fine : (0 : ℚ) < fineness exponent := Nat.cast_pos.mpr (powerOfTen_pos _)
  have scale : (0 : ℚ) < interval.denominator := Nat.cast_pos.mpr divides
  have point : (units : ℚ) * 10 ^ exponent =
      (units * spacing exponent : ℕ) / fineness exponent := by
    rw [← spacing_div_fineness, Nat.cast_mul, mul_div_assoc]
  unfold covers Contains
  rw [point]
  split <;>
    simp only [decide_eq_true_eq, div_le_div_iff₀ scale fine, div_le_div_iff₀ fine scale,
      div_lt_div_iff₀ scale fine, div_lt_div_iff₀ fine scale] <;>
    norm_cast

end RoundingInterval

open RoundingInterval (around)

/-- How far the interval reaches below a number, in units of its last binary digit. -/
def reachBelow (mantissa : ℕ) (exponent : ℤ) : ℚ :=
  if mantissa = 2 ^ 52 ∧ -1074 < exponent then 1 / 4 else 1 / 2

/-- Only below a power of two the interval reaches half as far as above it. -/
theorem reachBelow_cases (mantissa : ℕ) (exponent : ℤ) :
    (mantissa = 2 ^ 52 ∧ -1074 < exponent ∧ reachBelow mantissa exponent = 1 / 4) ∨
      reachBelow mantissa exponent = 1 / 2 := by
  unfold reachBelow
  split
  next narrow => exact .inl ⟨narrow.1, narrow.2, rfl⟩
  next => exact .inr rfl

/-- The interval is counted in quarters of the last binary digit. -/
theorem unit_div_denominator (exponent : ℤ) :
    (Binary64.numerator 1 (exponent - 2) : ℚ) / Binary64.denominator (exponent - 2) =
      2 ^ exponent / 4 := by
  rw [Binary64.numerator_div_denominator, Nat.cast_one, one_mul, zpow_sub₀ two_ne_zero]
  norm_num

/-- The lower end of the interval is that far below the number. -/
theorem lower_around {mantissa : ℕ} {exponent : ℤ} (above : 0 < mantissa) :
    ((around mantissa exponent).lower : ℚ) / (around mantissa exponent).denominator =
      (mantissa - reachBelow mantissa exponent) * 2 ^ exponent := by
  have narrow : (mantissa = Binary64.hiddenBit ∧ Binary64.leastExponent < exponent) =
      (mantissa = 2 ^ 52 ∧ -1074 < exponent) := rfl
  simp only [around, narrow, reachBelow]
  rw [Nat.cast_mul, mul_div_assoc, unit_div_denominator]
  split_ifs
  · rw [Nat.cast_sub (by omega)]
    push_cast
    ring
  · rw [Nat.cast_sub (by omega)]
    push_cast
    ring

/-- The upper end is half of the last binary digit above it. -/
theorem upper_around (mantissa : ℕ) (exponent : ℤ) :
    ((around mantissa exponent).upper : ℚ) / (around mantissa exponent).denominator =
      (mantissa + 1 / 2) * 2 ^ exponent := by
  simp only [around]
  rw [Nat.cast_mul, mul_div_assoc, unit_div_denominator]
  push_cast
  ring

/-- The interval is around the number itself. -/
theorem middle_around (mantissa : ℕ) (exponent : ℤ) :
    ((around mantissa exponent).middle : ℚ) / (around mantissa exponent).denominator =
      mantissa * 2 ^ exponent := by
  simp only [around]
  rw [Nat.cast_mul, mul_div_assoc, unit_div_denominator]
  push_cast
  ring

/-- The ends belong to the interval only if the mantissa is even. -/
theorem contains_around_iff {mantissa : ℕ} {exponent : ℤ} (above : 0 < mantissa) (units : ℚ) :
    (around mantissa exponent).Contains (units * 2 ^ exponent) ↔
      mantissa - reachBelow mantissa exponent ≤ units ∧ units ≤ mantissa + 1 / 2 ∧
        (units = mantissa - reachBelow mantissa exponent ∨ units = mantissa + 1 / 2 →
          mantissa % 2 = 0) := by
  have scale := two_zpow_pos exponent
  have closed : (around mantissa exponent).closed = decide (mantissa % 2 = 0) := rfl
  rw [RoundingInterval.Contains, lower_around above, upper_around, closed,
    mul_le_mul_iff_left₀ scale, mul_le_mul_iff_left₀ scale, mul_lt_mul_iff_left₀ scale,
    mul_lt_mul_iff_left₀ scale]
  by_cases even : mantissa % 2 = 0
  · simp [even]
  · simp only [even, decide_false, Bool.false_eq_true, if_false, imp_false, not_or]
    constructor
    · rintro ⟨least, most⟩
      exact ⟨least.le, most.le, least.ne', most.ne⟩
    · rintro ⟨least, most, notLeast, notMost⟩
      exact ⟨lt_of_le_of_ne least (Ne.symm notLeast), lt_of_le_of_ne most notMost⟩

/-- Units of 53 digits before the point have the spacing that they count. -/
theorem spacing_of_full {units : ℚ} {exponent : ℤ} (full : 2 ^ 52 ≤ units) (digits : units < 2 ^ 53)
    (least : -1074 ≤ exponent) : spacing (units * 2 ^ exponent) = exponent := by
  have scale := two_zpow_pos exponent
  have power (digits : ℕ) : (2 : ℚ) ^ (digits + exponent) = 2 ^ digits * 2 ^ exponent := by
    rw [zpow_add₀ two_ne_zero, zpow_natCast]
  have lower : 2 ^ (((52 : ℕ) : ℤ) + exponent) ≤ units * 2 ^ exponent := by
    rw [power]
    exact mul_le_mul_of_nonneg_right full scale.le
  have upper : units * 2 ^ exponent < 2 ^ (((52 : ℕ) : ℤ) + exponent + 1) := by
    have next : ((52 : ℕ) : ℤ) + exponent + 1 = (53 : ℕ) + exponent := by omega
    rw [next, power]
    exact mul_lt_mul_of_pos_right digits scale
  rw [spacing_eq lower upper]
  omega

/-- So have units with fewer digits, if the exponent is the least. -/
theorem spacing_of_short {units : ℚ} (above : 0 < units) (short : units < 2 ^ 52) :
    spacing (units * 2 ^ (-1074 : ℤ)) = -1074 := by
  have scale := two_zpow_pos (-1074)
  refine spacing_of_small (mul_pos above scale) ?_
  calc units * 2 ^ (-1074 : ℤ)
    _ < 2 ^ (52 : ℕ) * 2 ^ (-1074 : ℤ) := mul_lt_mul_of_pos_right short scale
    _ = 2 ^ (-1022 : ℤ) := by
      rw [← zpow_natCast, ← zpow_add₀ two_ne_zero]
      norm_num

/-- Units of the spacing are rounded to whole ones. -/
theorem nearest_of_spacing {units : ℚ} {exponent whole : ℤ}
    (own : spacing (units * 2 ^ exponent) = exponent) (same : nearestInteger units = whole) :
    nearest (units * 2 ^ exponent) = whole * 2 ^ exponent := by
  rw [nearest, own, mul_div_cancel_right₀ _ (two_zpow_pos exponent).ne', same]

/-- Every number of the interval is rounded to the number that it is around.

Proof: it has the spacing of this number, or it lies below the least mantissa of a binade and has
half of that spacing. Either way it is at most half of its own spacing away. -/
theorem nearest_of_contains {mantissa : ℕ} {exponent : ℤ} (above : 0 < mantissa)
    (canonical : Canonical mantissa exponent) {q : ℚ}
    (inside : (around mantissa exponent).Contains q) : nearest q = mantissa * 2 ^ exponent := by
  obtain ⟨units, rfl⟩ : ∃ units, q = units * 2 ^ exponent :=
    ⟨q / 2 ^ exponent, (div_mul_cancel₀ q (two_zpow_pos exponent).ne').symm⟩
  obtain ⟨least, most, tie⟩ := (contains_around_iff above units).mp inside
  have one : (1 : ℚ) ≤ mantissa := by exact_mod_cast above
  have digits : (mantissa : ℚ) + 1 ≤ 2 ^ 53 := by exact_mod_cast canonical.digits
  have reach := reachBelow_cases mantissa exponent
  have near : (mantissa : ℚ) - 1 / 2 ≤ units := by
    obtain ⟨-, -, quarter⟩ | half := reach <;> linarith
  have same : nearestInteger units = mantissa := by
    refine nearestInteger_eq (by exact_mod_cast near) (by exact_mod_cast most) fun halfway => ?_
    have even : mantissa % 2 = 0 := by
      obtain ⟨rfl, -, -⟩ | half := reach
      · rfl
      · rw [half] at tie
        exact tie (by exact_mod_cast halfway)
    omega
  obtain full | short := le_or_gt (2 ^ 52 : ℚ) units
  · exact_mod_cast nearest_of_spacing (spacing_of_full full (by linarith) canonical.least) same
  obtain rfl | fine := canonical.least.eq_or_lt
  · exact_mod_cast nearest_of_spacing (spacing_of_short (by linarith) short) same
  -- The mantissa is the least one, and the spacing below it is half as wide.
  have corner : mantissa = 2 ^ 52 := by
    have normal := canonical.full.resolve_right fine.ne'
    refine le_antisymm (Nat.lt_succ_iff.mp ?_) normal
    have below : (mantissa : ℚ) < 2 ^ 52 + 1 := by linarith
    exact_mod_cast below
  have quarter : reachBelow mantissa exponent = 1 / 4 := if_pos ⟨corner, fine⟩
  rw [quarter] at least
  have size : (mantissa : ℚ) = 2 ^ 52 := by exact_mod_cast corner
  have twice (number : ℚ) : number * 2 ^ exponent = 2 * number * 2 ^ (exponent - 1) := by
    rw [zpow_sub_one₀ two_ne_zero]
    ring
  have even : nearestInteger (2 * units) = 2 ^ 53 := by
    refine nearestInteger_eq ?_ ?_ fun _ => by norm_num
    · push_cast
      linarith
    · push_cast
      linarith
  rw [twice units, twice mantissa,
    nearest_of_spacing (spacing_of_full (by linarith) (by linarith) (by omega)) even, size]
  norm_num

/-! ### The search -/

namespace RoundingInterval

/-- The point of a grid that is chosen has been tested. -/
theorem covers_of_onGrid? {interval : RoundingInterval} {exponent : ℤ} {units : ℕ}
    (found : interval.onGrid? exponent = some units) : interval.covers exponent units = true := by
  unfold onGrid? at found
  dsimp only at found
  split at found
  next below above =>
    cases found
    split
    · exact above
    · exact below
  next below _ =>
    cases found
    exact below
  next _ above =>
    cases found
    exact above
  next => cases found

/-- A search ends with a number of the interval if the last grid has one just below its middle. -/
theorem contains_search {interval : RoundingInterval} (divides : 0 < interval.denominator)
    {exponent finest : ℤ} {count : ℕ} (last : exponent - count = finest)
    (inside : interval.Contains (interval.neighbourBelow finest * 10 ^ finest)) :
    interval.Contains (interval.search exponent count).exact := by
  induction count generalizing exponent with
  | zero =>
    obtain rfl : exponent = finest := by simpa using last
    exact inside
  | succ count inductionHypothesis =>
    rw [search]
    split
    next units found => exact (covers_iff divides exponent units).mp (covers_of_onGrid? found)
    next => exact inductionHypothesis (by omega)

end RoundingInterval

/-- With as many decimal places as there are binary ones every number is a point of the grid. -/
theorem neighbourBelow_fine (mantissa : ℕ) {exponent : ℤ} {places : ℕ}
    (least : -(places : ℤ) ≤ exponent) :
    ((around mantissa exponent).neighbourBelow (-places) : ℚ) * 10 ^ (-(places : ℤ)) =
      mantissa * 2 ^ exponent := by
  obtain ⟨shift, rfl⟩ := Int.le.dest least
  obtain ⟨interval, same⟩ : ∃ interval, around mantissa (-places + shift) = interval := ⟨_, rfl⟩
  have middle := middle_around mantissa (-places + shift)
  have divides : 0 < interval.denominator := same ▸ Binary64.denominator_pos _
  rw [same] at middle ⊢
  have fine : RoundingInterval.fineness (-places) = 10 ^ places := by
    rw [RoundingInterval.fineness, neg_neg, Int.toNat_natCast]
    rfl
  have coarse : RoundingInterval.spacing (-places) = 1 := by
    rw [RoundingInterval.spacing, Int.toNat_neg_natCast]
    rfl
  have ten : (10 : ℚ) ^ places = 2 ^ places * 5 ^ places := by
    rw [← mul_pow]
    norm_num
  have whole : interval.middle * 10 ^ places =
      mantissa * 2 ^ shift * 5 ^ places * interval.denominator := by
    rw [div_eq_iff (Nat.cast_ne_zero.mpr divides.ne'), zpow_add₀ two_ne_zero, zpow_neg,
      zpow_natCast, zpow_natCast] at middle
    have exact : (interval.middle : ℚ) * 10 ^ places =
        mantissa * 2 ^ shift * 5 ^ places * interval.denominator := by
      rw [middle, ten]
      field_simp
    exact_mod_cast exact
  rw [RoundingInterval.neighbourBelow, fine, coarse, Nat.mul_one, whole,
    Nat.mul_div_cancel _ divides, zpow_add₀ two_ne_zero, zpow_neg, zpow_neg, zpow_natCast,
    zpow_natCast, zpow_natCast, ten]
  push_cast
  field_simp

/-- The shortest decimal is rounded to the number that it is written for. -/
theorem nearest_shortest {mantissa : ℕ} {exponent : ℤ} (above : 0 < mantissa)
    (canonical : Canonical mantissa exponent) :
    nearest (shortest mantissa exponent).exact = mantissa * 2 ^ exponent := by
  have last : ((around mantissa exponent).coarsest : ℤ) -
      ((around mantissa exponent).coarsest + 1074 : ℕ) = -(1074 : ℕ) := by omega
  refine nearest_of_contains above canonical ?_
  refine RoundingInterval.contains_search (Binary64.denominator_pos _) last ?_
  rw [neighbourBelow_fine mantissa canonical.least, contains_around_iff above]
  obtain ⟨-, -, reach⟩ | reach := reachBelow_cases mantissa exponent <;>
    exact ⟨by linarith, by linarith, fun ends => by cases ends <;> linarith⟩

/-! ### Digits -/

/-- A number is read back from its digits. -/
theorem unitsOf_digits (n : ℕ) : unitsOf (digits n) = n :=
  Nat.ofDigitChars_eq_foldl.symm.trans Nat.ofDigitChars_ten_toDigits

/-- Zeros alone are zero. -/
theorem unitsOf_replicate_zero (n : ℕ) : unitsOf (List.replicate n '0') = 0 :=
  Nat.ofDigitChars_eq_foldl.symm.trans Nat.ofDigitChars_replicate_zero

/-- The digits of a number have its value, place by place. -/
theorem positional_digits (n : ℕ) : positional (digits n) = n := by
  rw [← Literal.unitsOf_eq, unitsOf_digits]

/-- Zeros before them change nothing. -/
theorem positional_padded (width n : ℕ) : positional (padded width n) = n := by
  rw [← Literal.unitsOf_eq, padded, Literal.unitsOf_append, unitsOf_replicate_zero, unitsOf_digits,
    Nat.zero_mul, Nat.zero_add]

/-- The text of units with some places behind the point is a literal for them. -/
theorem denotes_pointed (units : ℕ) {places : ℕ} (some : 0 < places) :
    Denotes (pointed units places) (units / 10 ^ places) := by
  have power : powerOfTen places = 10 ^ places := rfl
  have denotes := Denotes.fraction (digitRun_digits (units / powerOfTen places))
    (digitRun_padded places (units % powerOfTen places))
  have length : (padded places (units % powerOfTen places)).length = places :=
    length_padded some (Nat.mod_lt _ (powerOfTen_pos places))
  rw [positional_digits, positional_padded, length, power] at denotes
  have parts : ((10 ^ places * (units / 10 ^ places) + units % 10 ^ places : ℕ) : ℚ) = units := by
    rw [Nat.div_add_mod]
  have exact : (units / 10 ^ places : ℕ) + (units % 10 ^ places : ℕ) / (10 : ℚ) ^ places =
      units / 10 ^ places := by
    rw [← parts]
    push_cast
    field_simp
  rw [exact] at denotes
  exact denotes

/-- The positional text of a decimal is a literal for it. -/
theorem Decimal.denotes_plain (decimal : Decimal) : Denotes decimal.plain decimal.exact := by
  obtain ⟨units, exponent⟩ := decimal
  rw [Decimal.plain, Decimal.exact]
  dsimp only
  split
  next whole =>
    obtain ⟨zeros, rfl⟩ := Int.eq_ofNat_of_zero_le whole
    have run : DigitRun (digits units ++ List.replicate zeros '0') := by
      obtain ⟨some, each⟩ := digitRun_digits units
      refine ⟨List.append_ne_nil_of_left_ne_nil some _, fun c member => ?_⟩
      obtain own | filled := List.mem_append.mp member
      · exact each c own
      · rw [List.eq_of_mem_replicate filled]
        rfl
    have denotes := Denotes.whole run
    rw [← Literal.unitsOf_eq, Literal.unitsOf_append, unitsOf_digits, unitsOf_replicate_zero,
      List.length_replicate] at denotes
    rw [Int.toNat_natCast, zpow_natCast]
    exact_mod_cast denotes
  next broken =>
    obtain ⟨places, rfl⟩ := Int.eq_negSucc_of_lt_zero (not_le.mp broken)
    have count : (-Int.negSucc places).toNat = places + 1 := rfl
    have denotes := denotes_pointed units (Nat.succ_pos places)
    rw [count, zpow_negSucc, ← div_eq_mul_inv]
    exact denotes

/-! ### Floats -/

/-- The bits are known by what they denote, unless this is not a number. -/
theorem Binary64.eq_of_ofBits {left right : ℕ} (leftBits : left < 2 ^ 64)
    (rightBits : right < 2 ^ 64) (same : ofBits left = ofBits right)
    (number : ofBits left ≠ .notANumber) : left = right := by
  have hidden : hiddenBit = 2 ^ 52 := rfl
  have half : powerOfTwo 63 = 2 ^ 63 := rfl
  unfold ofBits at same number
  simp only [hidden, half] at same number
  split_ifs at same number <;>
    simp only [finite.injEq, infinite.injEq, decide_eq_decide, ne_eq, not_true_eq_false,
      reduceCtorEq] at same number <;>
    omega

/-- A float is known by what it denotes, unless this is not a number. -/
theorem eq_of_ofFloat {x y : Float} (same : Binary64.ofFloat x = Binary64.ofFloat y)
    (number : Binary64.ofFloat x ≠ .notANumber) : x = y := by
  obtain ⟨⟨⟨left⟩, _⟩⟩ := x
  obtain ⟨⟨⟨right⟩, _⟩⟩ := y
  obtain rfl : left = right :=
    BitVec.eq_of_toNat_eq (Binary64.eq_of_ofBits left.isLt right.isLt same number)
  rfl

/-- A stored magnitude has one mantissa and one exponent. -/
theorem Canonical.unique {mantissa mantissa' : ℕ} {exponent exponent' : ℤ}
    (canonical : Canonical mantissa exponent) (canonical' : Canonical mantissa' exponent')
    (same : (mantissa : ℚ) * 2 ^ exponent = mantissa' * 2 ^ exponent') :
    mantissa = mantissa' ∧ exponent = exponent' := by
  obtain less | rfl | more := lt_trichotomy exponent exponent'
  · exact absurd same (canonical.lt_of_exponent_lt canonical' less).ne
  · have mantissas := mul_right_cancel₀ (two_zpow_pos exponent).ne' same
    exact ⟨by exact_mod_cast mantissas, rfl⟩
  · exact absurd same (canonical'.lt_of_exponent_lt canonical more).ne'

/-- A magnitude is held in one way with each sign. -/
theorem Holds.unique {first second : UnpackedFloat} {sign : Sign} {magnitude magnitude' : ℚ}
    (left : Holds first sign magnitude) (right : Holds second sign magnitude')
    (same : magnitude = magnitude') : first = second := by
  cases left with
  | zero =>
    cases right with
    | zero => rfl
    | finite _ above => exact absurd same (magnitude_pos above _).ne
  | finite _ above canonical =>
    cases right with
    | zero => exact absurd same (magnitude_pos above _).ne'
    | finite _ above' canonical' =>
      obtain ⟨rfl, rfl⟩ := canonical.unique canonical' same
      rfl

/-- A float is known by the number it stands for, unless this is zero. -/
theorem eq_of_value? {x y : Float} {value : ℚ} (left : value? x = some value)
    (right : value? y = some value) (nonzero : value ≠ 0) : x = y := by
  obtain ⟨sign, magnitude, holds, rfl⟩ := holds_of_value? left
  obtain ⟨sign', magnitude', holds', same⟩ := holds_of_value? right
  have magnitudes : magnitude' = magnitude := by
    rw [← abs_withSign sign holds.nonneg, ← abs_withSign sign' holds'.nonneg, same]
  have above : 0 < magnitude := by
    refine lt_of_le_of_ne holds.nonneg fun none => nonzero ?_
    rw [← none, withSign_zero]
  have signs : sign' = sign := by
    rw [magnitudes] at same
    cases sign <;> cases sign' <;> first | rfl | (simp only [withSign] at same; linarith)
  subst signs
  have unpacked := holds.unique holds' magnitudes.symm
  refine eq_of_ofFloat (by rw [ofFloat_eq, ofFloat_eq, unpacked]) fun nothing => ?_
  rw [value?, nothing] at left
  cases left

/-- A float whose number is not zero is what every literal near enough to it is read as. -/
theorem readsAs_of_nearest {text : List Char} {exact value : ℚ} {x : Float}
    (denotes : DenotesSigned text exact) (near : nearest exact = value)
    (known : value? x = some value) (nonzero : value ≠ 0) : ReadsAs text x := by
  obtain ⟨y, read⟩ := Option.isSome_iff_exists.mp
    ((Literal.isSome_readSigned? text).mpr ⟨exact, denotes⟩)
  have finite := (denotes.isNearest read).finite
  rw [near] at finite
  have own := finite (isBinary64_of_value? known).bounded
  exact ⟨⟨exact, denotes⟩, eq_of_value? known own nonzero ▸ read⟩

/-- A zero is read with its sign. -/
theorem readsAs_zero (negative : Bool) :
    ∃ x, ReadsAs (signed negative ['0']) x ∧
      Binary64.ofFloat x = .finite negative 0 Binary64.leastExponent := by
  have denotes : Denotes ['0'] (positional ['0']) := 
    .whole ⟨List.cons_ne_nil _ _, List.forall_mem_singleton.mpr rfl⟩
  have seen : (Literal.readSigned? (signed negative ['0'])).map Binary64.ofFloat =
      some (.finite negative 0 Binary64.leastExponent) := by
    cases negative <;> decide +kernel
  obtain ⟨x, read, parts⟩ := Option.map_eq_some_iff.mp seen
  cases negative with
  | false => exact ⟨x, ⟨⟨_, .plain denotes⟩, read⟩, parts⟩
  | true => exact ⟨x, ⟨⟨_, .minus denotes⟩, read⟩, parts⟩

/-- The shortest text of a float that stands for a number is read as this float. -/
theorem readsAs_plain {x : Float} {value : ℚ} (known : value? x = some value) :
    ReadsAs (plain x).toList x := by
  obtain ⟨sign, magnitude, holds, rfl⟩ := holds_of_value? known
  have parts := ofFloat_eq x
  rw [plain, String.toList_ofList]
  generalize x.toModel.unpack = unpacked at holds parts
  cases holds with
  | zero =>
    obtain ⟨y, reads, zero⟩ := readsAs_zero (isNegative sign)
    have same : x = y := by
      refine eq_of_ofFloat (parts.trans zero.symm) fun none => ?_
      rw [parts] at none
      cases none
    rw [parts, same]
    exact reads
  | @finite _ mantissa exponent above canonical =>
    have text : (Binary64.ofFloat x).plain =
        signed (isNegative sign) (shortest mantissa exponent).plain := by
      rw [parts, Binary64.ofUnpacked]
      exact Binary64.plain.eq_2 _ _ _ above.ne'
    have near := nearest_shortest above canonical
    have denotes := (shortest mantissa exponent).denotes_plain
    have nonzero := (magnitude_pos above exponent).ne'
    rw [text]
    cases sign with
    | positive => exact readsAs_of_nearest (.plain denotes) near known nonzero
    | negative =>
      refine readsAs_of_nearest (.minus denotes) ?_ known (neg_ne_zero.mpr nonzero)
      rw [nearest_neg, near]
      rfl

end ParamSweep.Number
