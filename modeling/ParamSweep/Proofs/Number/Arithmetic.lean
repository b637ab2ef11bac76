import ParamSweep.Proofs.Number.Rounding

/-!
# The arithmetic of floats is that of rational numbers, rounded

The sum, the difference, the product and the quotient of two finite floats are the floats nearest to
those of the numbers they stand for, or infinite where these are out of range. Negation is exact,
and floats compare as the numbers do. Of the values that are no numbers only this is needed: how
they are told apart, what a difference or a quotient with a finite value can be made of, and what
zero times infinity leads to.
-/

namespace ParamSweep.Number

open Float.Model Float.Model.UnpackedFloat

/-- The float that is nearest to a number: it stands for the nearest number that has 53 digits, or
it is infinite if that is out of range. -/
structure IsNearest (q : ℚ) (x : Float) : Prop where
  finite : |nearest q| < bound → value? x = some (nearest q)
  infinite : bound ≤ |nearest q| → Binary64.ofFloat x = .infinite (decide (q < 0))

/-- What a float holds beside its sign is not negative. -/
theorem Holds.nonneg {unpacked : UnpackedFloat} {sign : Sign} {magnitude : ℚ}
    (holds : Holds unpacked sign magnitude) : 0 ≤ magnitude := by
  cases holds with
  | zero => exact le_refl 0
  | finite _ above canonical => positivity

/-- The sign of a number is not seen in its absolute value. -/
theorem abs_withSign (sign : Sign) {magnitude : ℚ} (nonnegative : 0 ≤ magnitude) :
    |withSign sign magnitude| = magnitude := by
  cases sign with
  | negative => exact (abs_neg _).trans (abs_of_nonneg nonnegative)
  | positive => exact abs_of_nonneg nonnegative

/-- A float that is packed is nearest to what it was rounded from. -/
theorem Holds.isNearest {unpacked : UnpackedFloat} {sign : Sign} {magnitude q : ℚ}
    (holds : Holds unpacked sign magnitude) (rounded : withSign sign magnitude = nearest q) :
    IsNearest q (.ofModel (.pack unpacked)) := by
  have size : |nearest q| = magnitude := by rw [← rounded, abs_withSign sign holds.nonneg]
  constructor
  · intro small
    rw [← rounded]
    exact value?_pack holds (size ▸ small)
  · intro large
    rw [size] at large
    rw [ofFloat_pack holds (not_lt.mpr large)]
    have above : 0 < magnitude := lt_of_lt_of_le (by rw [bound]; positivity) large
    congr 1
    cases sign with
    | negative =>
      have below : q < 0 := by
        by_contra nonnegative
        have none := nearest_nonneg (not_lt.mp nonnegative)
        rw [← rounded, withSign] at none
        linarith
      exact (decide_eq_true below).symm
    | positive =>
      have nonnegative : ¬ q < 0 := by
        intro below
        have none := nearest_nonneg (neg_nonneg.mpr below.le)
        rw [nearest_neg, ← rounded, withSign] at none
        linarith
      exact (decide_eq_false nonnegative).symm

/-- Numbers are rounded to the same distance on both sides of zero. -/
theorem nearest_withSign (sign : Sign) (magnitude : ℚ) :
    nearest (withSign sign magnitude) = withSign sign (nearest magnitude) := by
  cases sign with
  | negative => exact nearest_neg magnitude
  | positive => rfl

/-! ### Mantissas of any number of digits -/

/-- A smaller exponent leaves more digits in the mantissa, and the same number. -/
theorem decreaseExponent_eq (mantissa : ℕ) {exponent target : ℤ} {shift : ℕ}
    (amount : (exponent - target).toNat = shift) :
    decreaseExponent mantissa exponent target = (mantissa * 2 ^ shift, exponent - shift) := by
  rw [decreaseExponent, amount, Nat.shiftLeft_eq]

/-- Zeros behind a binary number are so many more digits. -/
theorem log2_mul_two_pow {mantissa : ℕ} (above : 0 < mantissa) (shift : ℕ) :
    (mantissa * 2 ^ shift).log2 = mantissa.log2 + shift := by
  obtain ⟨lower, upper⟩ := (Nat.log2_eq_iff above.ne').mp rfl
  refine (Nat.log2_eq_iff (by positivity)).mpr ⟨?_, ?_⟩
  · rw [pow_add]
    exact Nat.mul_le_mul_right _ lower
  · rw [add_right_comm, pow_add]
    exact Nat.mul_lt_mul_of_pos_right upper (by positivity)

/-- Rounding a mantissa of any number of digits gives the nearest number. -/
theorem holds_round (sign : Sign) {mantissa : ℕ} (above : 0 < mantissa) (exponent : ℤ) :
    Holds (UnpackedFloat.round Format.binary64 sign mantissa exponent) sign
      (nearest (mantissa * 2 ^ exponent)) := by
  obtain ⟨shift, amount⟩ : ∃ shift, (exponent - target mantissa exponent).toNat = shift := ⟨_, rfl⟩
  have same : target (mantissa * 2 ^ shift) (exponent - shift) = target mantissa exponent := by
    rw [target_eq, target_eq, log2_mul_two_pow above]
    omega
  have value : ((mantissa * 2 ^ shift : ℕ) : ℚ) * 2 ^ (exponent - shift) =
      mantissa * 2 ^ exponent := by
    rw [zpow_sub₀ two_ne_zero, zpow_natCast]
    push_cast
    field_simp
  have rounded : UnpackedFloat.round Format.binary64 sign mantissa exponent =
      roundWithAccuracy Format.binary64 sign (mantissa * 2 ^ shift) (exponent - shift) .exact := by
    rw [UnpackedFloat.round]
    change (match decreaseExponent mantissa exponent (target mantissa exponent) with
      | (mantissa, exponent) =>
        roundWithAccuracy Format.binary64 sign mantissa exponent .exact) = _
    rw [decreaseExponent_eq mantissa amount]
  rw [rounded, ← value]
  refine holds_roundWithAccuracy sign (.exact _) ?_
  rw [same]
  omega

/-- The same for a mantissa with a sign. -/
theorem holds_normalize (mantissa exponent : ℤ) :
    ∃ sign magnitude,
      Holds (UnpackedFloat.normalize Format.binary64 mantissa exponent .positive) sign magnitude ∧
      withSign sign magnitude = nearest (mantissa * 2 ^ exponent) := by
  unfold UnpackedFloat.normalize
  obtain below | rfl | above := lt_trichotomy mantissa 0
  · rw [Int.compare_eq_lt.mpr below]
    refine ⟨_, _, holds_round .negative (by omega : 0 < (-mantissa).toNat) exponent, ?_⟩
    have size : (((-mantissa).toNat : ℕ) : ℚ) = -mantissa := by
      have same : ((-mantissa).toNat : ℤ) = -mantissa := Int.toNat_of_nonneg (by omega)
      exact_mod_cast same
    rw [size, neg_mul, nearest_neg, withSign, neg_neg]
  · rw [Int.compare_eq_eq.mpr rfl]
    exact ⟨_, _, .zero .positive, by simp [withSign]⟩
  · rw [Int.compare_eq_gt.mpr above]
    refine ⟨_, _, holds_round .positive (by omega : 0 < mantissa.toNat) exponent, ?_⟩
    have size : ((mantissa.toNat : ℕ) : ℚ) = mantissa := by
      have same : (mantissa.toNat : ℤ) = mantissa := Int.toNat_of_nonneg (by omega)
      exact_mod_cast same
    rw [size, withSign]

/-- So a float is made that is nearest to any multiple of a power of two. -/
theorem isNearest_normalize (mantissa exponent : ℤ) :
    IsNearest (mantissa * 2 ^ exponent)
      (.ofModel (.pack (UnpackedFloat.normalize Format.binary64 mantissa exponent .positive))) := by
  obtain ⟨sign, magnitude, holds, rounded⟩ := holds_normalize mantissa exponent
  exact holds.isNearest rounded

/-! ### Operations -/

/-- Zero has no sign. -/
theorem withSign_zero (sign : Sign) : withSign sign 0 = 0 := by
  cases sign with
  | negative => exact neg_zero
  | positive => rfl

/-- The opposite sign makes the opposite number. -/
theorem withSign_neg (sign : Sign) (magnitude : ℚ) :
    withSign (-sign) magnitude = -withSign sign magnitude := by
  cases sign with
  | negative => exact (neg_neg magnitude).symm
  | positive => rfl

/-- A float stands for a number of 53 digits that is in range. -/
theorem isBinary64_of_value? {x : Float} {value : ℚ} (known : value? x = some value) :
    IsBinary64 value := by
  obtain ⟨sign, magnitude, holds, rfl⟩ := holds_of_value? known
  have size := abs_withSign sign holds.nonneg
  generalize unpacked : x.toModel.unpack = parts at holds
  cases holds with
  | zero =>
    rw [withSign_zero]
    exact_mod_cast isBinary64_natCast (n := 0) (by norm_num)
  | @finite _ mantissa exponent above canonical =>
    have digits := abs_natCast_lt canonical.digits
    constructor
    · cases sign with
      | negative =>
        refine ⟨-mantissa, exponent, by rwa [abs_neg], canonical.least, ?_⟩
        push_cast
        exact (neg_mul _ _).symm
      | positive => exact ⟨mantissa, exponent, digits, canonical.least, rfl⟩
    · rw [size]
      exact (canonical.lt_bound_iff above).mpr (canonical_of_unpack unpacked).2

/-- Aligned mantissas have the difference of the numbers. -/
theorem apply_mul_zpow (sign : Sign) (mantissa : ℕ) {exponent least : ℤ}
    (below : least ≤ exponent) :
    ((sign.apply ((mantissa * 2 ^ (exponent - least).toNat : ℕ) : ℤ) : ℤ) : ℚ) * 2 ^ least =
      withSign sign (mantissa * 2 ^ exponent) := by
  have scale : (2 : ℚ) ^ (exponent - least).toNat * 2 ^ least = 2 ^ exponent := by
    rw [← zpow_natCast, ← zpow_add₀ two_ne_zero]
    congr 1
    omega
  cases sign with
  | negative =>
    simp only [Sign.apply, withSign]
    push_cast
    rw [neg_mul, mul_assoc, scale]
  | positive =>
    simp only [Sign.apply, withSign]
    push_cast
    rw [mul_assoc, scale]

/-- The difference of two floats is nearest to the difference of the numbers they stand for. -/
theorem isNearest_sub {x y : Float} {a b : ℚ} (left : value? x = some a)
    (right : value? y = some b) : IsNearest (a - b) (x - y) := by
  have keepsLeft := (isBinary64_of_value? left).nearest_eq
  have keepsRight := (isBinary64_of_value? right).nearest_eq
  obtain ⟨leftSign, leftSize, leftHolds, rfl⟩ := holds_of_value? left
  obtain ⟨rightSign, rightSize, rightHolds, rfl⟩ := holds_of_value? right
  have whole : x - y = .ofModel (.pack
      (UnpackedFloat.sub Format.binary64 x.toModel.unpack y.toModel.unpack)) := rfl
  rw [whole]
  generalize x.toModel.unpack = first at leftHolds
  generalize y.toModel.unpack = second at rightHolds
  cases leftHolds with
  | zero =>
    cases rightHolds with
    | zero =>
      have rounded (sign : Sign) : withSign sign 0 =
          nearest (withSign leftSign 0 - withSign rightSign 0) := by
        simp [withSign_zero]
      rw [UnpackedFloat.sub]
      split
      · exact (Holds.zero _).isNearest (rounded _)
      · exact (Holds.zero _).isNearest (rounded _)
    | finite _ above canonical =>
      refine (Holds.finite (-rightSign) above canonical).isNearest ?_
      rw [withSign_neg, withSign_zero, zero_sub, nearest_neg, keepsRight]
  | @finite _ mantissa exponent above canonical =>
    cases rightHolds with
    | zero =>
      refine (Holds.finite leftSign above canonical).isNearest ?_
      rw [withSign_zero, sub_zero, keepsLeft]
    | @finite _ mantissa' exponent' above' canonical' =>
      have near := isNearest_normalize
        (leftSign.apply ((mantissa * 2 ^ (exponent - min exponent exponent').toNat : ℕ) : ℤ) -
          rightSign.apply ((mantissa' * 2 ^ (exponent' - min exponent exponent').toNat : ℕ) : ℤ))
        (min exponent exponent')
      rw [Int.cast_sub, sub_mul, apply_mul_zpow leftSign mantissa (min_le_left _ _),
        apply_mul_zpow rightSign mantissa' (min_le_right _ _)] at near
      rw [UnpackedFloat.sub]
      simp only [decreaseExponent_eq _ rfl]
      exact near

/-- The sign of a quotient is that of the signs, whatever is divided. -/
theorem withSign_div (left right : Sign) (a b : ℚ) :
    withSign left a / withSign right b = withSign (left / right) (a / b) := by
  cases left <;> cases right
  · exact neg_div_neg_eq a b
  · exact neg_div b a
  · exact div_neg a
  · rfl

/-- The sign of a product is that of the signs, whatever is multiplied. -/
theorem withSign_mul (left right : Sign) (a b : ℚ) :
    withSign left a * withSign right b = withSign (left * right) (a * b) := by
  cases left <;> cases right
  · exact neg_mul_neg a b
  · exact neg_mul a b
  · exact mul_neg a b
  · rfl

/-- Where the exponent of a quotient is not among the least, the quotient has digits enough. -/
theorem log2_quotient {dividend divisor shift : ℕ} (above : 0 < dividend) (above' : 0 < divisor)
    (digits : 53 + divisor.log2 ≤ dividend.log2 + shift) :
    52 ≤ (dividend * 2 ^ shift / divisor).log2 := by
  have enough : 2 ^ 52 ≤ dividend * 2 ^ shift / divisor := by
    refine (Nat.le_div_iff_mul_le above').mpr ?_
    calc 2 ^ 52 * divisor
      _ ≤ 2 ^ 52 * 2 ^ (divisor.log2 + 1) := Nat.mul_le_mul_left _ Nat.lt_log2_self.le
      _ = 2 ^ (52 + (divisor.log2 + 1)) := (pow_add 2 52 _).symm
      _ ≤ 2 ^ (dividend.log2 + shift) := Nat.pow_le_pow_right Nat.two_pos (by omega)
      _ = 2 ^ dividend.log2 * 2 ^ shift := pow_add 2 _ _
      _ ≤ dividend * 2 ^ shift := Nat.mul_le_mul_right _ (Nat.log2_self_le above.ne')
  exact (Nat.le_log2 (Nat.pos_of_ne_zero (by omega)).ne').mpr enough

/-- A quotient of mantissas, with what is left of it, is rounded to the nearest number. -/
theorem holds_divCore (sign : Sign) {dividend divisor : ℕ} (above : 0 < dividend)
    (above' : 0 < divisor) (exponent exponent' : ℤ) :
    Holds
      (match divCore Format.binary64 dividend exponent divisor exponent' with
        | (mantissa, exponent, accuracy) =>
          roundWithAccuracy Format.binary64 sign mantissa exponent accuracy) sign
      (nearest (dividend * 2 ^ exponent / (divisor * 2 ^ exponent'))) := by
  obtain ⟨least, known⟩ : ∃ least, min (exponent - exponent')
      (Format.binary64.targetExponent
        (totalExponent dividend exponent - totalExponent divisor exponent')) = least := ⟨_, rfl⟩
  obtain ⟨shift, amount⟩ : ∃ shift, (exponent - exponent' - least).toNat = shift := ⟨_, rfl⟩
  have core : divCore Format.binary64 dividend exponent divisor exponent' =
      (dividend * 2 ^ shift / divisor, least,
        accuracyOfFraction (dividend * 2 ^ shift % divisor) divisor) := by
    rw [divCore, known, amount, Nat.shiftLeft_eq]
  have bounds : least = min (exponent - exponent')
      (max (dividend.log2 + exponent - divisor.log2 - exponent' - 53) (-1074)) := by
    have digits : (Format.binary64.mantissaBits : ℤ) = 53 := rfl
    have lowest : Format.binary64.minExponent = -1074 := rfl
    rw [← known, Format.targetExponent, totalExponent, totalExponent, digits, lowest]
    omega
  have value : ((dividend * 2 ^ shift : ℕ) : ℚ) / divisor * 2 ^ least =
      dividend * 2 ^ exponent / (divisor * 2 ^ exponent') := by
    have exponents : exponent = shift + least + exponent' := by omega
    have size : (divisor : ℚ) ≠ 0 := Nat.cast_ne_zero.mpr above'.ne'
    rw [exponents, zpow_add₀ two_ne_zero, zpow_add₀ two_ne_zero, zpow_natCast]
    push_cast
    field_simp
  rw [core, ← value]
  refine holds_roundWithAccuracy sign (.quotient _ above') ?_
  rw [target_eq]
  by_cases small : least ≤ -1074
  · omega
  · have digits : 53 + divisor.log2 ≤ dividend.log2 + shift := by omega
    have enough := log2_quotient above above' digits
    omega

/-- The quotient of two floats is nearest to the quotient of the numbers they stand for. -/
theorem isNearest_div {x y : Float} {a b : ℚ} (left : value? x = some a) (right : value? y = some b)
    (divides : b ≠ 0) : IsNearest (a / b) (x / y) := by
  obtain ⟨leftSign, leftSize, leftHolds, rfl⟩ := holds_of_value? left
  obtain ⟨rightSign, rightSize, rightHolds, rfl⟩ := holds_of_value? right
  have whole : x / y = .ofModel (.pack
      (UnpackedFloat.div Format.binary64 x.toModel.unpack y.toModel.unpack)) := rfl
  rw [whole, withSign_div]
  generalize x.toModel.unpack = first at leftHolds
  generalize y.toModel.unpack = second at rightHolds
  cases rightHolds with
  | zero => exact absurd (withSign_zero rightSign) divides
  | finite _ above' canonical' =>
    cases leftHolds with
    | zero =>
      refine (Holds.zero (leftSign / rightSign)).isNearest ?_
      rw [zero_div, withSign_zero, nearest_zero]
    | finite _ above canonical =>
      exact (holds_divCore (leftSign / rightSign) above above' _ _).isNearest
        (nearest_withSign _ _).symm

/-- The product of two stored magnitudes is rounded to the nearest number.

Only the least exponents leave a mantissa short of digits, and a sum of two exponents that is not
among the least has at most one of them. -/
theorem holds_product (sign : Sign) {mantissa mantissa' : ℕ} {exponent exponent' : ℤ}
    (above : 0 < mantissa) (above' : 0 < mantissa') (canonical : Canonical mantissa exponent)
    (canonical' : Canonical mantissa' exponent') :
    Holds
      (roundWithAccuracy Format.binary64 sign (mantissa * mantissa') (exponent + exponent') .exact)
      sign (nearest (mantissa * 2 ^ exponent * (mantissa' * 2 ^ exponent'))) := by
  have value : ((mantissa * mantissa' : ℕ) : ℚ) * 2 ^ (exponent + exponent') =
      mantissa * 2 ^ exponent * (mantissa' * 2 ^ exponent') := by
    rw [zpow_add₀ two_ne_zero]
    push_cast
    ring
  rw [← value]
  refine holds_roundWithAccuracy sign (.exact _) ?_
  rw [target_eq]
  by_cases small : exponent + exponent' ≤ -1074
  · omega
  · have enough : 2 ^ 52 ≤ mantissa * mantissa' := by
      obtain full | least := canonical.full
      · exact le_trans full (Nat.le_mul_of_pos_right _ above')
      · have full' := canonical'.full.resolve_right (by omega)
        exact le_trans full' (Nat.le_mul_of_pos_left _ above)
    have digits := (Nat.le_log2 (Nat.mul_pos above above').ne').mpr enough
    omega

/-- The product of two floats is nearest to the product of the numbers they stand for. -/
theorem isNearest_mul {x y : Float} {a b : ℚ} (left : value? x = some a)
    (right : value? y = some b) : IsNearest (a * b) (x * y) := by
  obtain ⟨leftSign, leftSize, leftHolds, rfl⟩ := holds_of_value? left
  obtain ⟨rightSign, rightSize, rightHolds, rfl⟩ := holds_of_value? right
  have whole : x * y = .ofModel (.pack
      (UnpackedFloat.mul Format.binary64 x.toModel.unpack y.toModel.unpack)) := rfl
  rw [whole, withSign_mul]
  generalize x.toModel.unpack = first at leftHolds
  generalize y.toModel.unpack = second at rightHolds
  have nothing :
      withSign (leftSign * rightSign) 0 = nearest (withSign (leftSign * rightSign) 0) := by
    rw [withSign_zero, nearest_zero]
  cases leftHolds with
  | zero =>
    rw [zero_mul]
    cases rightHolds with
    | zero => exact (Holds.zero (leftSign * rightSign)).isNearest nothing
    | finite _ above canonical => exact (Holds.zero (leftSign * rightSign)).isNearest nothing
  | finite _ above canonical =>
    cases rightHolds with
    | zero =>
      rw [mul_zero]
      exact (Holds.zero (leftSign * rightSign)).isNearest nothing
    | finite _ above' canonical' =>
      exact (holds_product (leftSign * rightSign) above above' canonical canonical').isNearest
        (nearest_withSign _ _).symm

/-- An infinite float is unpacked as such. -/
theorem unpack_of_infinite {x : Float} {negative : Bool}
    (known : Binary64.ofFloat x = .infinite negative) :
    ∃ sign, x.toModel.unpack = .infinity sign ∧ isNegative sign = negative := by
  rw [ofFloat_eq] at known
  cases unpacked : x.toModel.unpack with
  | infinity sign =>
    rw [unpacked] at known
    exact ⟨sign, rfl, Binary64.infinite.inj known⟩
  | notANumber => rw [unpacked] at known; cases known
  | zero sign => rw [unpacked] at known; cases known
  | finite sign mantissa exponent above => rw [unpacked] at known; cases known

/-- A float that is not a number is unpacked as such. -/
theorem unpack_of_notANumber {x : Float} (known : Binary64.ofFloat x = .notANumber) :
    x.toModel.unpack = .notANumber := by
  rw [ofFloat_eq] at known
  cases unpacked : x.toModel.unpack with
  | notANumber => rfl
  | infinity sign => rw [unpacked] at known; cases known
  | zero sign => rw [unpacked] at known; cases known
  | finite sign mantissa exponent above => rw [unpacked] at known; cases known

/-- What is no number when it is packed is no number as a float. -/
theorem ofFloat_pack_notANumber :
    Binary64.ofFloat (.ofModel (.pack .notANumber)) = .notANumber := by
  rw [ofFloat_eq]
  rfl

/-- The floats that stand for zero are the zeros. -/
theorem unpack_of_zero {x : Float} (known : value? x = some 0) :
    ∃ sign, x.toModel.unpack = .zero sign := by
  obtain ⟨sign, magnitude, holds, nothing⟩ := holds_of_value? known
  generalize x.toModel.unpack = unpacked at holds
  cases holds with
  | zero => exact ⟨sign, rfl⟩
  | @finite _ mantissa exponent above canonical =>
    have size : (0 : ℚ) < mantissa * 2 ^ exponent :=
      mul_pos (Nat.cast_pos.mpr above) (two_zpow_pos exponent)
    have none := abs_withSign sign size.le
    rw [nothing, abs_zero] at none
    exact absurd none size.ne

/-- Negation is exact. -/
theorem IsNearest.neg {q : ℚ} {x : Float} (isNearest : IsNearest q x) : IsNearest (-q) (-x) := by
  have whole : -x = .ofModel (.pack x.toModel.unpack.neg) := rfl
  have size : |nearest (-q)| = |nearest q| := by rw [nearest_neg, abs_neg]
  constructor
  · intro small
    obtain ⟨sign, magnitude, holds, same⟩ := holds_of_value? (isNearest.finite (size ▸ small))
    have other : Holds x.toModel.unpack.neg (-sign) magnitude := by
      generalize x.toModel.unpack = unpacked at holds
      cases holds with
      | zero => exact .zero _
      | finite _ above canonical => exact .finite _ above canonical
    have rounded : withSign (-sign) magnitude = nearest (-q) := by
      rw [withSign_neg, same, nearest_neg]
    rw [whole]
    exact (other.isNearest rounded).finite small
  · intro large
    rw [size] at large
    obtain ⟨sign, unpacked, negative⟩ := unpack_of_infinite (isNearest.infinite large)
    have apart : q ≠ 0 := by
      rintro rfl
      rw [nearest_zero, abs_zero, bound] at large
      exact absurd large (not_le.mpr (by positivity))
    have opposite : decide (-q < 0) = !decide (q < 0) := by
      obtain below | above := lt_or_gt_of_ne apart
      · rw [decide_eq_true below, decide_eq_false (by linarith)]
        rfl
      · rw [decide_eq_false above.not_gt, decide_eq_true (by linarith)]
        rfl
    rw [opposite, ← negative, whole, unpacked, ofFloat_eq]
    cases sign <;> rfl

/-- The float that is nearest to a number can stand for nothing but the nearest number. -/
theorem IsNearest.value_eq {q value : ℚ} {x : Float} (isNearest : IsNearest q x)
    (known : value? x = some value) : value = nearest q := by
  by_cases small : |nearest q| < bound
  · exact Option.some.inj (known.symm.trans (isNearest.finite small))
  · rw [value?, isNearest.infinite (not_lt.mp small)] at known
    cases known

/-- A number that a float stands for is its own nearest. -/
theorem IsNearest.value?_eq {q : ℚ} {x : Float} (isNearest : IsNearest q x)
    (isBinary64 : IsBinary64 q) : value? x = some q := by
  have finite := isNearest.finite
  rw [isBinary64.nearest_eq] at finite
  exact finite isBinary64.bounded

/-- A float that stands for a number is nearest to it. -/
theorem isNearest_of_value? {x : Float} {value : ℚ} (known : value? x = some value) :
    IsNearest value x := by
  have isBinary64 := isBinary64_of_value? known
  constructor
  · intro _
    rw [isBinary64.nearest_eq, known]
  · intro large
    rw [isBinary64.nearest_eq] at large
    exact absurd isBinary64.bounded large.not_gt

/-- The float with the other sign. -/
theorem unpack_neg {x : Float} {value : ℚ} (known : value? x = some value) :
    (-x).toModel.unpack = x.toModel.unpack.neg := by
  obtain ⟨sign, magnitude, holds, -⟩ := holds_of_value? known
  have whole : (-x).toModel.unpack = (Float.Model.pack x.toModel.unpack.neg).unpack := rfl
  rw [whole]
  generalize unpacked : x.toModel.unpack = parts at holds
  cases holds with
  | zero => exact unpack_pack_zero _
  | finite _ above canonical =>
    exact unpack_pack_finite _ above canonical (canonical_of_unpack unpacked).2

/-- The opposite sign of a mantissa is its opposite. -/
theorem apply_neg (sign : Sign) (mantissa : ℤ) : (-sign).apply mantissa = -sign.apply mantissa := by
  cases sign with
  | negative => exact (neg_neg mantissa).symm
  | positive => rfl

/-- To add is to take away what has the other sign. -/
theorem sub_neg_unpacked (format : Format) (first second : UnpackedFloat) :
    first.sub format second.neg = first.add format second := by
  have twice (sign : Sign) : - -sign = sign := by cases sign <;> rfl
  cases first <;> cases second <;>
    simp only [UnpackedFloat.neg, UnpackedFloat.sub, UnpackedFloat.add, twice, apply_neg,
      sub_neg_eq_add]

/-- The sum of two floats is nearest to the sum of the numbers they stand for. -/
theorem isNearest_add {x y : Float} {a b : ℚ} (left : value? x = some a)
    (right : value? y = some b) : IsNearest (a + b) (x + y) := by
  have negated : value? (-y) = some (-b) :=
    (isNearest_of_value? right).neg.value?_eq (isBinary64_of_value? right).neg
  have same : x - -y = x + y := by
    have whole : x - -y = .ofModel (.pack
        (UnpackedFloat.sub Format.binary64 x.toModel.unpack (-y).toModel.unpack)) := rfl
    rw [whole, unpack_neg right, sub_neg_unpacked]
    rfl
  have near := isNearest_sub left negated
  rwa [same, sub_neg_eq_add] at near

/-- The float zero stands for zero. -/
theorem value?_zero : value? 0 = some 0 := by
  decide +kernel

/-! ### Special values -/

/-- Whether an unpacked float stands for a number. -/
def IsFinite : UnpackedFloat → Prop
  | .infinity _ => False
  | .notANumber => False
  | .zero _ => True
  | .finite _ _ _ _ => True

/-- The floats that stand for numbers are those that unpack to a zero or a mantissa. -/
theorem isFinite_iff (x : Float) : IsFinite x.toModel.unpack ↔ ∃ value, value? x = some value := by
  rw [value?, ofFloat_eq]
  cases x.toModel.unpack <;> simp [IsFinite, Binary64.ofUnpacked, Binary64.value?]

/-- A float is told to be infinite if its bits are those of an infinite one. -/
theorem isInf_iff (x : Float) :
    x.isInf = true ↔ ∃ negative, Binary64.ofFloat x = .infinite negative := by
  have whole : x.isInf = x.toModel.unpack.isInf := rfl
  rw [whole, ofFloat_eq]
  cases x.toModel.unpack <;> simp [UnpackedFloat.isInf, Binary64.ofUnpacked]

/-- What is packed as a special value remains one. -/
theorem IsFinite.of_pack {unpacked : UnpackedFloat}
    (finite : IsFinite (Float.Model.pack unpacked).unpack) : IsFinite unpacked := by
  cases unpacked with
  | infinity sign => cases sign <;> exact finite
  | notANumber => exact finite
  | zero sign => exact trivial
  | finite sign mantissa exponent above => exact trivial

/-- A difference is finite only if both its parts are. -/
theorem finite_of_sub {x y : Float} {value : ℚ} (known : value? (x - y) = some value) :
    (∃ a, value? x = some a) ∧ ∃ b, value? y = some b := by
  have finite : IsFinite (UnpackedFloat.sub Format.binary64 x.toModel.unpack y.toModel.unpack) :=
    IsFinite.of_pack ((isFinite_iff (x - y)).mpr ⟨value, known⟩)
  rw [← isFinite_iff, ← isFinite_iff]
  revert finite
  cases x.toModel.unpack <;> cases y.toModel.unpack <;> grind [UnpackedFloat.sub, IsFinite]

/-- A quotient is finite only if the dividend is. -/
theorem finite_of_div {x y : Float} {value : ℚ} (known : value? (x / y) = some value) :
    ∃ a, value? x = some a := by
  have finite : IsFinite (UnpackedFloat.div Format.binary64 x.toModel.unpack y.toModel.unpack) :=
    IsFinite.of_pack ((isFinite_iff (x / y)).mpr ⟨value, known⟩)
  rw [← isFinite_iff]
  revert finite
  cases x.toModel.unpack <;> cases y.toModel.unpack <;> simp [UnpackedFloat.div, IsFinite]

/-- Nothing is left of a number that is divided by an infinite float. -/
theorem value?_div_infinite {x y : Float} {a : ℚ} {negative : Bool} (left : value? x = some a)
    (right : Binary64.ofFloat y = .infinite negative) : value? (x / y) = some 0 := by
  obtain ⟨sign, magnitude, holds, -⟩ := holds_of_value? left
  obtain ⟨sign', unpacked, -⟩ := unpack_of_infinite right
  have whole : x / y = .ofModel (.pack
      (UnpackedFloat.div Format.binary64 x.toModel.unpack y.toModel.unpack)) := rfl
  have nothing : UnpackedFloat.div Format.binary64 x.toModel.unpack y.toModel.unpack =
      .zero (sign / sign') := by
    rw [unpacked]
    generalize x.toModel.unpack = first at holds
    cases holds <;> rfl
  rw [whole, nothing, value?_pack (.zero _) (by rw [bound]; positivity), withSign_zero]

/-- A quotient is finite only if the divisor is a number or infinite. -/
theorem ne_notANumber_of_div {x y : Float} {value : ℚ} (known : value? (x / y) = some value) :
    Binary64.ofFloat y ≠ .notANumber := by
  intro nothing
  have finite : IsFinite (UnpackedFloat.div Format.binary64 x.toModel.unpack y.toModel.unpack) :=
    IsFinite.of_pack ((isFinite_iff (x / y)).mpr ⟨value, known⟩)
  rw [unpack_of_notANumber nothing] at finite
  revert finite
  cases x.toModel.unpack <;> simp [UnpackedFloat.div, IsFinite]

/-- Adding zero leaves a number as it is. -/
theorem value?_add_zero {x y : Float} {a : ℚ} (left : value? x = some a)
    (right : value? y = some 0) : value? (x + y) = some a := by
  have near := isNearest_add left right
  rw [add_zero] at near
  exact near.value?_eq (isBinary64_of_value? left)

/-- Zero times an infinite float is not a number. -/
theorem ofFloat_zero_mul_infinite {x y : Float} {negative : Bool} (left : value? x = some 0)
    (right : Binary64.ofFloat y = .infinite negative) :
    Binary64.ofFloat (x * y) = .notANumber := by
  obtain ⟨sign, nothing⟩ := unpack_of_zero left
  obtain ⟨infiniteSign, unpacked, -⟩ := unpack_of_infinite right
  have whole : x * y = .ofModel (.pack
      (UnpackedFloat.mul Format.binary64 x.toModel.unpack y.toModel.unpack)) := rfl
  rw [whole, nothing, unpacked]
  exact ofFloat_pack_notANumber

/-- A sum with something that is not a number is not a number. -/
theorem ofFloat_add_notANumber (x : Float) {y : Float} (right : Binary64.ofFloat y = .notANumber) :
    Binary64.ofFloat (x + y) = .notANumber := by
  have whole : x + y = .ofModel (.pack
      (UnpackedFloat.add Format.binary64 x.toModel.unpack y.toModel.unpack)) := rfl
  rw [whole, unpack_of_notANumber right]
  cases x.toModel.unpack <;> exact ofFloat_pack_notANumber

/-! ### Comparisons -/

/-- Of two stored magnitudes, the one with the larger exponent is larger. -/
theorem Canonical.lt_of_exponent_lt {mantissa mantissa' : ℕ} {exponent exponent' : ℤ}
    (canonical : Canonical mantissa exponent) (canonical' : Canonical mantissa' exponent')
    (less : exponent < exponent') : (mantissa : ℚ) * 2 ^ exponent < mantissa' * 2 ^ exponent' := by
  have least := canonical.least
  have full : 2 ^ 52 ≤ mantissa' := canonical'.full.resolve_right (by omega)
  calc (mantissa : ℚ) * 2 ^ exponent
    _ < 2 ^ 53 * 2 ^ exponent :=
      mul_lt_mul_of_pos_right (by exact_mod_cast canonical.digits) (two_zpow_pos exponent)
    _ = 2 ^ 52 * 2 ^ (exponent + 1) := by
      rw [zpow_add₀ two_ne_zero]
      ring
    _ ≤ mantissa' * 2 ^ exponent' :=
      mul_le_mul (by exact_mod_cast full) (zpow_le_zpow_right₀ one_le_two less) (by positivity)
        (by positivity)

/-- Stored magnitudes compare by their exponents, and by their mantissas where these agree. -/
theorem Canonical.compare_eq {mantissa mantissa' : ℕ} {exponent exponent' : ℤ}
    (canonical : Canonical mantissa exponent) (canonical' : Canonical mantissa' exponent') :
    (compare exponent exponent').then (compare mantissa mantissa') =
      compare ((mantissa : ℚ) * 2 ^ exponent) (mantissa' * 2 ^ exponent') := by
  obtain less | rfl | more := lt_trichotomy exponent exponent'
  · rw [compare_lt_iff_lt.mpr less,
      compare_lt_iff_lt.mpr (canonical.lt_of_exponent_lt canonical' less)]
    rfl
  · have scale := two_zpow_pos exponent
    rw [compare_eq_iff_eq.mpr rfl]
    obtain less | rfl | more := lt_trichotomy mantissa mantissa'
    · have below : (mantissa : ℚ) * 2 ^ exponent < mantissa' * 2 ^ exponent :=
        mul_lt_mul_of_pos_right (by exact_mod_cast less) scale
      rw [compare_lt_iff_lt.mpr below, compare_lt_iff_lt.mpr less]
      rfl
    · rw [compare_eq_iff_eq.mpr rfl, compare_eq_iff_eq.mpr rfl]
      rfl
    · have beyond : (mantissa' : ℚ) * 2 ^ exponent < mantissa * 2 ^ exponent :=
        mul_lt_mul_of_pos_right (by exact_mod_cast more) scale
      rw [compare_gt_iff_gt.mpr beyond, compare_gt_iff_gt.mpr more]
      rfl
  · rw [compare_gt_iff_gt.mpr more,
      compare_gt_iff_gt.mpr (canonical'.lt_of_exponent_lt canonical more)]
    rfl

/-- A mantissa other than zero makes a number above zero, at every exponent. -/
theorem magnitude_pos {mantissa : ℕ} (above : 0 < mantissa) (exponent : ℤ) :
    (0 : ℚ) < mantissa * 2 ^ exponent := by
  positivity

/-- Opposite numbers compare the other way round. -/
theorem compare_neg_neg (a b : ℚ) : compare (-a) (-b) = (compare a b).swap := by
  obtain less | rfl | more := lt_trichotomy a b
  · rw [compare_lt_iff_lt.mpr less, compare_gt_iff_gt.mpr (neg_lt_neg less)]
    rfl
  · rw [compare_eq_iff_eq.mpr rfl, compare_eq_iff_eq.mpr rfl]
    rfl
  · rw [compare_gt_iff_gt.mpr more, compare_lt_iff_lt.mpr (neg_lt_neg more)]
    rfl

/-- Floats compare as the numbers they stand for. -/
theorem compare_unpack {x y : Float} {a b : ℚ} (left : value? x = some a)
    (right : value? y = some b) :
    UnpackedFloat.compare x.toModel.unpack y.toModel.unpack = some (compare a b) := by
  obtain ⟨leftSign, leftSize, leftHolds, rfl⟩ := holds_of_value? left
  obtain ⟨rightSign, rightSize, rightHolds, rfl⟩ := holds_of_value? right
  generalize x.toModel.unpack = first at leftHolds
  generalize y.toModel.unpack = second at rightHolds
  cases leftHolds with
  | zero =>
    rw [withSign_zero]
    cases rightHolds with
    | zero => rw [withSign_zero, compare_eq_iff_eq.mpr rfl, UnpackedFloat.compare]
    | @finite _ mantissa exponent above canonical =>
      have size := magnitude_pos above exponent
      cases rightSign with
      | negative => exact congrArg some (compare_gt_iff_gt.mpr (neg_lt_zero.mpr size)).symm
      | positive => exact congrArg some (compare_lt_iff_lt.mpr size).symm
  | @finite _ mantissa exponent above canonical =>
    have size := magnitude_pos above exponent
    cases rightHolds with
    | zero =>
      rw [withSign_zero]
      cases leftSign with
      | negative => exact congrArg some (compare_lt_iff_lt.mpr (neg_lt_zero.mpr size)).symm
      | positive => exact congrArg some (compare_gt_iff_gt.mpr size).symm
    | @finite _ mantissa' exponent' above' canonical' =>
      have size' := magnitude_pos above' exponent'
      cases leftSign with
      | negative =>
        cases rightSign with
        | negative =>
          rw [withSign, withSign, compare_neg_neg, ← canonical.compare_eq canonical']
          rfl
        | positive =>
          exact congrArg some (compare_lt_iff_lt.mpr ((neg_lt_zero.mpr size).trans size')).symm
      | positive =>
        cases rightSign with
        | negative =>
          exact congrArg some (compare_gt_iff_gt.mpr ((neg_lt_zero.mpr size').trans size)).symm
        | positive => exact congrArg some (canonical.compare_eq canonical')

/-- One float is at most another if they compare and the comparison does not say more. -/
theorem le_iff_compare (x y : Float) : x ≤ y ↔
    (UnpackedFloat.compare x.toModel.unpack y.toModel.unpack).any (·.isLE) = true := by
  have whole : x ≤ y ↔ decide (UnpackedFloat.le x.toModel.unpack y.toModel.unpack = true) = true :=
    Iff.rfl
  rw [whole, decide_eq_true_iff, UnpackedFloat.le]

/-- Floats that stand for numbers are ordered as these are. -/
theorem le_iff {x y : Float} {a b : ℚ} (left : value? x = some a) (right : value? y = some b) :
    x ≤ y ↔ a ≤ b := by
  rw [le_iff_compare, compare_unpack left right, Option.any_some, Ordering.isLE_iff_ne_gt]
  exact compare_le_iff_le

/-- One float is less than another if the comparison says so. -/
theorem lt_iff_compare (x y : Float) : x < y ↔
    UnpackedFloat.compare x.toModel.unpack y.toModel.unpack = some .lt := by
  have whole : x < y ↔
      decide (UnpackedFloat.lt x.toModel.unpack y.toModel.unpack = true) = true :=
    Iff.rfl
  rw [whole, decide_eq_true_iff, UnpackedFloat.lt, beq_iff_eq]

/-- A float is less than another exactly if its number is. -/
theorem lt_iff {x y : Float} {a b : ℚ} (left : value? x = some a) (right : value? y = some b) :
    x < y ↔ a < b := by
  rw [lt_iff_compare, compare_unpack left right, Option.some.injEq]
  exact compare_lt_iff_lt

/-- A float that is less is at most as great. Special values are no exception. -/
theorem le_of_lt {x y : Float} (less : x < y) : x ≤ y := by
  rw [le_iff_compare, (lt_iff_compare x y).mp less]
  rfl

/-- A float that stands for a number is below the infinite one. -/
theorem lt_infinite {x y : Float} {number : ℚ} (known : value? x = some number)
    (infinite : Binary64.ofFloat y = .infinite false) : x < y := by
  obtain ⟨sign, magnitude, holds, -⟩ := holds_of_value? known
  obtain ⟨infiniteSign, unpacked, positive⟩ := unpack_of_infinite infinite
  rw [lt_iff_compare, unpacked]
  generalize x.toModel.unpack = finite at holds
  cases infiniteSign with
  | negative => cases positive
  | positive => cases holds <;> rfl

/-- A float that stands for a number is above the infinite one with a minus. -/
theorem infinite_lt {x y : Float} {number : ℚ} (known : value? x = some number)
    (infinite : Binary64.ofFloat y = .infinite true) : y < x := by
  obtain ⟨sign, magnitude, holds, -⟩ := holds_of_value? known
  obtain ⟨infiniteSign, unpacked, negative⟩ := unpack_of_infinite infinite
  rw [lt_iff_compare, unpacked]
  generalize x.toModel.unpack = finite at holds
  cases infiniteSign with
  | positive => cases negative
  | negative => cases holds <;> rfl

end ParamSweep.Number
