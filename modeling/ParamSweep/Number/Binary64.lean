import ParamSweep.Number.Power

/-!
# Binary64 numbers as exact values

A float is read as the exact number its bits denote: a sign, a natural mantissa and a power
of two, or one of the three special values. Everything that must be exact about a float (its
shortest text, its text with fixed places, its ceiling) is natural-number arithmetic on this
reading and never float arithmetic.

Every finite value has a mantissa below `2 ^ 53` and an exponent of at least `-1074`, so its
numerator and denominator below are natural numbers of at most about two thousand bits.
-/

namespace ParamSweep.Number

/-- What the 64 bits of a float denote. A finite value is `mantissa * 2 ^ exponent`, negated
when `negative` holds; both zeros have mantissa zero. -/
inductive Binary64
  | finite (negative : Bool) (mantissa : Nat) (exponent : Int)
  | infinite (negative : Bool)
  | notANumber
  deriving DecidableEq, Repr

namespace Binary64

/-- Mantissas of normal numbers start here: the bit that the format leaves out. -/
def hiddenBit : Nat := powerOfTwo 52

/-- The exponent of the smallest numbers, where the hidden bit is gone. -/
def leastExponent : Int := -1074

/-- Reads sign, exponent field and fraction field of a 64-bit pattern. -/
def ofBits (bits : Nat) : Binary64 :=
  let negative := decide (powerOfTwo 63 ≤ bits)
  let field := bits / hiddenBit % 2048
  let fraction := bits % hiddenBit
  if field = 2047 then
    if fraction = 0 then .infinite negative else .notANumber
  else if field = 0 then
    .finite negative fraction leastExponent
  else
    .finite negative (hiddenBit + fraction) (field + leastExponent - 1)

/-- The exact value of a float. -/
def ofFloat (x : Float) : Binary64 := ofBits x.toBits.toNat

/-- Numerator of the magnitude `mantissa * 2 ^ exponent`. -/
def numerator (mantissa : Nat) (exponent : Int) : Nat := mantissa * powerOfTwo exponent.toNat

/-- Denominator of the magnitude `mantissa * 2 ^ exponent`. -/
def denominator (exponent : Int) : Nat := powerOfTwo (-exponent).toNat

/-- The least natural number that is not below a finite value; special values have none. A
negative value has the ceiling zero. -/
def ceiling? : Binary64 → Option Nat
  | .finite true _ _ => some 0
  | .finite false mantissa exponent =>
    let below := denominator exponent
    some ((numerator mantissa exponent + (below - 1)) / below)
  | .infinite _ => none
  | .notANumber => none

end Binary64

/-- Whether a 64-bit pattern is a signalling not-a-number: the first bit of its fraction, which
marks the quiet ones, is not set. A float does not keep the difference. -/
def isSignalling (bits : Nat) : Bool :=
  let fraction := bits % Binary64.hiddenBit
  bits / Binary64.hiddenBit % 2048 == 2047 && 0 < fraction && fraction < powerOfTwo 51

/-- The float that is not a number. -/
def notANumber : Float := 0.0 / 0.0

/-- The least natural number that is not below a float, if the float is finite. -/
def ceiling? (x : Float) : Option Nat := (Binary64.ofFloat x).ceiling?

end ParamSweep.Number
