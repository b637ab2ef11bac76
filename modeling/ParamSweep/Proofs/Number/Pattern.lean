import Mathlib
import ParamSweep.Proofs.Number.Nearest
import ParamSweep.Proofs.Number.Value

/-!
# Floats as signs, mantissas and exponents

The arithmetic of floats is defined on unpacked floats. A float that is unpacked has the sign, the
mantissa and the exponent that are read from its bits; and a mantissa and an exponent as the format
stores them survive being packed, as long as the exponent is not too large.
-/

namespace ParamSweep.Number

open Float.Model Float.Model.UnpackedFloat

/-- A mantissa and an exponent as the format stores them: the mantissa has 53 digits unless the
exponent is the least. -/
structure Canonical (mantissa : ℕ) (exponent : ℤ) : Prop where
  digits : mantissa < 2 ^ 53
  least : -1074 ≤ exponent
  full : 2 ^ 52 ≤ mantissa ∨ exponent = -1074

/-- A magnitude with its sign. -/
def withSign : Sign → ℚ → ℚ
  | .negative, magnitude => -magnitude
  | .positive, magnitude => magnitude

/-- Whether a sign is a minus. -/
def isNegative : Sign → Bool
  | .negative => true
  | .positive => false

/-- An unpacked float that is finite, with its sign and its magnitude. -/
inductive Holds : UnpackedFloat → Sign → ℚ → Prop
  | zero (sign : Sign) : Holds (.zero sign) sign 0
  | finite (sign : Sign) {mantissa : ℕ} {exponent : ℤ} (above : 0 < mantissa)
      (canonical : Canonical mantissa exponent) :
      Holds (.finite sign mantissa exponent above) sign (mantissa * 2 ^ exponent)

/-- What is read from the bits of a float that was unpacked. -/
def Binary64.ofUnpacked : UnpackedFloat → Binary64
  | .infinity sign => .infinite (isNegative sign)
  | .notANumber => .notANumber
  | .zero sign => .finite (isNegative sign) 0 leastExponent
  | .finite sign mantissa exponent _ => .finite (isNegative sign) mantissa exponent

/-! ### Bits -/

/-- The mantissa is in the 52 low bits. -/
theorem toNat_unpackMantissa (bits : BitVec 64) :
    (@unpackMantissa Format.binary64 bits).toNat = bits.toNat % 2 ^ 52 := by
  simp [unpackMantissa, BitVec.extractLsb_toNat]

/-- The exponent is in the 11 bits above the mantissa. -/
theorem toNat_unpackExponent (bits : BitVec 64) :
    (@unpackExponent Format.binary64 bits).toNat = bits.toNat / 2 ^ 52 % 2048 := by
  simp [unpackExponent, BitVec.extractLsb_toNat, Nat.shiftRight_eq_div_pow]

/-- The sign is the highest bit. -/
theorem toNat_unpackSign (bits : BitVec 64) :
    (@unpackSign Format.binary64 bits).toNat = bits.toNat / 2 ^ 63 % 2 := by
  simp [unpackSign, BitVec.extractLsb_toNat, Nat.shiftRight_eq_div_pow]

/-- A pattern has a negative sign exactly if its highest bit is set. -/
theorem sign_of_unpackSign (bits : BitVec 64) :
    isNegative (Sign.ofBitVec (@unpackSign Format.binary64 bits)) =
      decide (2 ^ 63 ≤ bits.toNat) := by
  have bounded : bits.toNat < 2 ^ 64 := bits.isLt
  have bit := toNat_unpackSign bits
  by_cases plus : @unpackSign Format.binary64 bits = 0#1
  · rw [plus, BitVec.toNat_zero] at bit
    rw [Sign.ofBitVec, if_pos plus]
    symm
    exact decide_eq_false (by omega)
  · have one : (@unpackSign Format.binary64 bits).toNat ≠ 0 := fun zero =>
      plus (BitVec.eq_of_toNat_eq zero)
    rw [Sign.ofBitVec, if_neg plus]
    symm
    exact decide_eq_true (by omega)

/-- The leading digit in front of a stored mantissa. -/
theorem toNat_leading (mantissa : BitVec 52) :
    (1#1 ++ mantissa).toNat = 2 ^ 52 + mantissa.toNat := by
  rw [BitVec.toNat_append, ← Nat.shiftLeft_add_eq_or_of_lt mantissa.isLt]
  rfl

/-- A float that is unpacked has the parts that are read from its bits. -/
theorem ofFloat_eq (x : Float) : Binary64.ofFloat x = .ofUnpacked x.toModel.unpack := by
  have read : Binary64.ofFloat x = .ofBits x.toModel.toBits.toBitVec.toNat := rfl
  rw [read, Float.Model.unpack]
  generalize x.toModel.toBits.toBitVec = bits
  have mantissa := toNat_unpackMantissa bits
  have exponent := toNat_unpackExponent bits
  have sign := sign_of_unpackSign bits
  have hidden : Binary64.hiddenBit = 2 ^ 52 := rfl
  have half : powerOfTwo 63 = 2 ^ 63 := rfl
  unfold Binary64.ofBits UnpackedFloat.unpack
  simp only [hidden, half, ← mantissa, ← exponent, ← sign]
  have full : @unpackExponent Format.binary64 bits = -1#11 ↔
      (@unpackExponent Format.binary64 bits).toNat = 2047 :=
    BitVec.toNat_inj.symm
  have none : @unpackExponent Format.binary64 bits = 0#11 ↔
      (@unpackExponent Format.binary64 bits).toNat = 0 :=
    BitVec.toNat_inj.symm
  have bare : @unpackMantissa Format.binary64 bits = 0#52 ↔
      (@unpackMantissa Format.binary64 bits).toNat = 0 :=
    BitVec.toNat_inj.symm
  by_cases special : (@unpackExponent Format.binary64 bits).toNat = 2047
  · rw [if_pos special, if_pos (full.mpr special)]
    by_cases nothing : (@unpackMantissa Format.binary64 bits).toNat = 0
    · rw [if_pos nothing, if_pos (bare.mpr nothing)]
      rfl
    · rw [if_neg nothing, if_neg (mt bare.mp nothing)]
      rfl
  · rw [if_neg special, if_neg (mt full.mp special)]
    by_cases small : (@unpackExponent Format.binary64 bits).toNat = 0
    · rw [if_pos small, if_pos (none.mpr small)]
      by_cases nothing : (@unpackMantissa Format.binary64 bits).toNat = 0
      · rw [dif_pos (bare.mpr nothing), nothing]
        rfl
      · rw [dif_neg (mt bare.mp nothing), small]
        rfl
    · rw [if_neg small, if_neg (mt none.mp small)]
      simp only [Binary64.ofUnpacked, toNat_leading, Binary64.leastExponent]
      congr 1
      have bias : Format.binary64.exponentBias = 1023 := rfl
      rw [bias]
      omega

/-- Floats are stored as the format wants them. -/
theorem canonical_of_unpack {x : Float} {sign : Sign} {mantissa : ℕ} {exponent : ℤ}
    {above : 0 < mantissa}
    (parts : x.toModel.unpack = .finite sign mantissa exponent above) :
    Canonical mantissa exponent ∧ exponent ≤ 971 := by
  have bias : (Format.binary64.exponentBias : ℤ) = 1023 := rfl
  unfold Float.Model.unpack UnpackedFloat.unpack at parts
  generalize x.toModel.toBits.toBitVec = bits at parts
  have stored : (@unpackMantissa Format.binary64 bits).toNat < 2 ^ 52 := BitVec.isLt _
  have field : (@unpackExponent Format.binary64 bits).toNat < 2 ^ 11 := BitVec.isLt _
  dsimp only at parts
  split at parts
  · split at parts <;> cases parts
  · next regular =>
    have below : (@unpackExponent Format.binary64 bits).toNat ≠ 2047 := fun full =>
      regular (BitVec.eq_of_toNat_eq full)
    split at parts
    · next small =>
      split at parts
      · cases parts
      · rw [small] at parts
        cases parts
        refine ⟨⟨by omega, ?_, .inr ?_⟩, ?_⟩ <;> simp [bias]
    · next normal =>
      have above : (@unpackExponent Format.binary64 bits).toNat ≠ 0 := fun none =>
        normal (BitVec.eq_of_toNat_eq none)
      cases parts
      rw [toNat_leading, bias]
      exact ⟨⟨by omega, by omega, .inl (by omega)⟩, by omega⟩

/-! ### Packing -/

/-- Sign, exponent and mantissa stand side by side in a pattern. -/
theorem toNat_packComponents (sign : Sign) (exponent : BitVec 11) (mantissa : BitVec 52) :
    (packComponents Format.binary64 sign exponent mantissa).toNat =
      sign.toBitVec.toNat * 2 ^ 63 + exponent.toNat * 2 ^ 52 + mantissa.toNat := by
  have whole : (packComponents Format.binary64 sign exponent mantissa).toNat =
      (sign.toBitVec ++ exponent ++ mantissa).toNat := rfl
  rw [whole, BitVec.toNat_append, BitVec.toNat_append,
    ← Nat.shiftLeft_add_eq_or_of_lt exponent.isLt, ← Nat.shiftLeft_add_eq_or_of_lt mantissa.isLt,
    Nat.shiftLeft_eq, Nat.shiftLeft_eq]
  ring

/-- The sign that is packed is the sign that is unpacked. -/
theorem unpackSign_packComponents (sign : Sign) (exponent : BitVec 11) (mantissa : BitVec 52) :
    unpackSign (packComponents Format.binary64 sign exponent mantissa) = sign.toBitVec := by
  refine BitVec.eq_of_toNat_eq ?_
  have field : exponent.toNat < 2 ^ 11 := exponent.isLt
  have stored : mantissa.toNat < 2 ^ 52 := mantissa.isLt
  have bit : sign.toBitVec.toNat < 2 ^ 1 := sign.toBitVec.isLt
  rw [toNat_unpackSign, toNat_packComponents]
  omega

/-- A sign can be read back from its bit. -/
theorem ofBitVec_toBitVec (sign : Sign) : Sign.ofBitVec sign.toBitVec = sign := by
  cases sign <;> rfl

/-- A mantissa with a bit set is a number above zero. -/
theorem toNat_pos_of_ne_zero {mantissa : BitVec 52} (some : ¬mantissa = 0#52) :
    0 < mantissa.toNat := by
  simpa [BitVec.toNat_pos, BitVec.pos_iff_ne_zero] using some

/-- With the leading bit every mantissa is a number above zero. -/
theorem leading_pos (mantissa : BitVec 52) : 0 < 2 ^ 52 + mantissa.toNat := by positivity

/-- The float of three components: the highest exponent is that of the infinities and of no number,
the lowest that of zero and of the mantissas without a leading bit. -/
theorem unpack_packComponents (sign : Sign) (exponent : BitVec 11) (mantissa : BitVec 52) :
    UnpackedFloat.unpack Format.binary64
        (packComponents Format.binary64 sign exponent mantissa) =
      if exponent = -1#11 then if mantissa = 0#52 then .infinity sign else .notANumber
      else if exponent = 0#11 then
        if bare : mantissa = 0#52 then .zero sign
        else .finite sign mantissa.toNat (-1074) (toNat_pos_of_ne_zero bare)
      else .finite sign (2 ^ 52 + mantissa.toNat) (exponent.toNat - 1075)
        (leading_pos mantissa) := by
  have bias : (Format.binary64.exponentBias : ℤ) = 1023 := rfl
  unfold UnpackedFloat.unpack
  simp only [unpackMantissa_packComponents, unpackExponent_packComponents,
    unpackSign_packComponents, ofBitVec_toBitVec, toNat_leading, bias]
  split_ifs with full nothing small bare
  · rfl
  · rfl
  · rfl
  · simp [small]
  · simp

/-- Packing goes by the exponent as it is stored and by the digits of the mantissa. -/
theorem unpack_pack (sign : Sign) {mantissa : ℕ} {exponent : ℤ} (above : 0 < mantissa)
    {biased : ℕ} (stored : (exponent + Format.binary64.exponentBias + 52).toNat = biased) :
    (Float.Model.pack (.finite sign mantissa exponent above)).unpack =
      UnpackedFloat.unpack Format.binary64
        (if 2 ^ 11 ≤ biased + 1 then packedInfinity Format.binary64 sign
        else if mantissa.log2 + 1 = 53 then
          packComponents Format.binary64 sign (BitVec.ofNat 11 biased) (BitVec.ofNat 52 mantissa)
        else packComponents Format.binary64 sign 0#11 (BitVec.ofNat 52 mantissa)) := by
  rw [← stored]
  rfl

/-- A mantissa and an exponent that the format stores are packed as they are. -/
theorem unpack_pack_finite (sign : Sign) {mantissa : ℕ} {exponent : ℤ} (above : 0 < mantissa)
    (canonical : Canonical mantissa exponent) (fits : exponent ≤ 971) :
    (Float.Model.pack (.finite sign mantissa exponent above)).unpack =
      .finite sign mantissa exponent above := by
  have bias : (Format.binary64.exponentBias : ℤ) = 1023 := rfl
  obtain ⟨digits, least, full⟩ := canonical
  obtain ⟨biased, known⟩ : ∃ biased : ℕ,
      (exponent + Format.binary64.exponentBias + 52).toNat = biased ∧
        (biased : ℤ) = exponent + 1075 :=
    ⟨_, rfl, by rw [bias]; omega⟩
  have small : ¬ 2 ^ 11 ≤ biased + 1 := by omega
  rw [unpack_pack sign above known.1, if_neg small]
  by_cases normal : 2 ^ 52 ≤ mantissa
  · have log : mantissa.log2 = 52 := (Nat.log2_eq_iff above.ne').mpr ⟨normal, digits⟩
    have field : (BitVec.ofNat 11 biased).toNat = biased := by
      rw [BitVec.toNat_ofNat, Nat.mod_eq_of_lt (by omega)]
    have stored : (BitVec.ofNat 52 mantissa).toNat = mantissa - 2 ^ 52 := by
      rw [BitVec.toNat_ofNat]
      omega
    have notFull : BitVec.ofNat 11 biased ≠ -1#11 := fun same => by
      have full : biased = 2047 := field.symm.trans (congrArg BitVec.toNat same)
      omega
    have notNone : BitVec.ofNat 11 biased ≠ 0#11 := fun same => by
      have none : biased = 0 := field.symm.trans (congrArg BitVec.toNat same)
      omega
    rw [if_pos (congrArg (· + 1) log), unpack_packComponents, if_neg notFull, if_neg notNone]
    simp only [field, stored, finite.injEq, true_and]
    omega
  · obtain rfl : exponent = -1074 := full.resolve_left normal
    have log : mantissa.log2 + 1 ≠ 53 := by
      have below := (Nat.log2_lt above.ne').mpr (Nat.lt_of_not_le normal)
      omega
    have stored : (BitVec.ofNat 52 mantissa).toNat = mantissa := by
      rw [BitVec.toNat_ofNat, Nat.mod_eq_of_lt (Nat.lt_of_not_le normal)]
    have notBare : BitVec.ofNat 52 mantissa ≠ 0#52 := fun same =>
      above.ne' (stored.symm.trans (congrArg BitVec.toNat same))
    rw [if_neg log, unpack_packComponents, if_neg (by decide), if_pos rfl, dif_neg notBare]
    simp only [stored]

/-- What is too large becomes infinite when it is packed. -/
theorem unpack_pack_overflow (sign : Sign) {mantissa : ℕ} {exponent : ℤ} (above : 0 < mantissa)
    (large : 971 < exponent) :
    (Float.Model.pack (.finite sign mantissa exponent above)).unpack = .infinity sign := by
  have bias : (Format.binary64.exponentBias : ℤ) = 1023 := rfl
  have beyond : 2 ^ 11 ≤ (exponent + Format.binary64.exponentBias + 52).toNat + 1 := by
    rw [bias]
    omega
  rw [unpack_pack sign above rfl, if_pos beyond]
  cases sign <;> rfl

/-- Both zeros come back from their patterns. -/
theorem unpack_pack_zero (sign : Sign) : (Float.Model.pack (.zero sign)).unpack = .zero sign := by
  cases sign <;> rfl

/-! ### Values -/

/-- A stored magnitude is below the bound exactly if its exponent is not too large. -/
theorem Canonical.lt_bound_iff {mantissa : ℕ} {exponent : ℤ} (above : 0 < mantissa)
    (canonical : Canonical mantissa exponent) :
    (mantissa : ℚ) * 2 ^ exponent < bound ↔ exponent ≤ 971 := by
  have split (rest : ℤ) : (2 : ℚ) ^ (1024 - rest) * 2 ^ rest = bound := by
    rw [← zpow_add₀ two_ne_zero, sub_add_cancel]
    rfl
  constructor
  · intro below
    by_contra large
    have normal : 2 ^ 52 ≤ mantissa := canonical.full.resolve_right (by omega)
    refine absurd below (not_lt.mpr ?_)
    have digits : (2 : ℚ) ^ (1024 - 972 : ℤ) ≤ mantissa := by
      norm_num
      exact_mod_cast normal
    rw [← split 972]
    exact mul_le_mul digits (zpow_le_zpow_right₀ one_le_two (by omega)) (by positivity)
      (by positivity)
  · intro fits
    have digits : (mantissa : ℚ) < 2 ^ (1024 - 971 : ℤ) := by
      norm_num
      exact_mod_cast canonical.digits
    rw [← split 971]
    exact mul_lt_mul digits (zpow_le_zpow_right₀ one_le_two fits) (by positivity) (by positivity)

/-- A float that holds a magnitude stands for it. -/
theorem value?_of_holds {x : Float} {sign : Sign} {magnitude : ℚ}
    (holds : Holds x.toModel.unpack sign magnitude) :
    value? x = some (withSign sign magnitude) := by
  rw [value?, ofFloat_eq]
  generalize x.toModel.unpack = unpacked at holds
  cases holds with
  | zero => cases sign <;> simp [Binary64.ofUnpacked, Binary64.value?, isNegative, withSign]
  | finite _ above canonical =>
    cases sign <;> simp [Binary64.ofUnpacked, Binary64.value?, isNegative, withSign]

/-- A float that stands for a number holds its magnitude. -/
theorem holds_of_value? {x : Float} {value : ℚ} (known : value? x = some value) :
    ∃ sign magnitude, Holds x.toModel.unpack sign magnitude ∧ withSign sign magnitude = value := by
  have holds : ∃ sign magnitude, Holds x.toModel.unpack sign magnitude := by
    rw [value?, ofFloat_eq] at known
    cases unpacked : x.toModel.unpack with
    | infinity sign => rw [unpacked] at known; cases known
    | notANumber => rw [unpacked] at known; cases known
    | zero sign => exact ⟨sign, _, .zero sign⟩
    | finite sign mantissa exponent above =>
      exact ⟨sign, _, .finite sign above (canonical_of_unpack unpacked).1⟩
  obtain ⟨sign, magnitude, holds⟩ := holds
  exact ⟨sign, magnitude, holds, Option.some.inj ((value?_of_holds holds).symm.trans known)⟩

/-- A magnitude that is packed is what the float stands for, if it is below the bound. -/
theorem value?_pack {unpacked : UnpackedFloat} {sign : Sign} {magnitude : ℚ}
    (holds : Holds unpacked sign magnitude) (fits : magnitude < bound) :
    value? (.ofModel (.pack unpacked)) = some (withSign sign magnitude) := by
  have same : (Float.Model.pack unpacked).unpack = unpacked := by
    cases holds with
    | zero => exact unpack_pack_zero sign
    | finite _ above canonical =>
      exact unpack_pack_finite sign above canonical ((canonical.lt_bound_iff above).mp fits)
  refine value?_of_holds ?_
  rwa [same]

/-- A magnitude that is not below the bound becomes infinite. -/
theorem ofFloat_pack {unpacked : UnpackedFloat} {sign : Sign} {magnitude : ℚ}
    (holds : Holds unpacked sign magnitude) (large : ¬ magnitude < bound) :
    Binary64.ofFloat (.ofModel (.pack unpacked)) = .infinite (isNegative sign) := by
  cases holds with
  | zero => exact absurd (by rw [bound]; positivity) large
  | finite _ above canonical =>
    have beyond := not_le.mp (mt (canonical.lt_bound_iff above).mpr large)
    rw [ofFloat_eq, unpack_pack_overflow sign above beyond]
    rfl

end ParamSweep.Number
