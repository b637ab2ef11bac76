import ParamSweep.Number.Binary64

/-!
# Values

The value of an operand is a float or a signal. A float that is not a number is quiet: it may
drop out of a power, since every float to the power of zero is one and one to the power of
every float is one. A signal is the not-a-number that never drops out: an operator with a
signal for an operand is undefined.

No literal is a signal and no operator yields one. A signal can only be put in from outside,
and it is the value of a formula only if the formula is nothing but that operand.
-/

namespace ParamSweep.Formula

/-- A float, or the not-a-number that no operator absorbs. -/
inductive Value
  | float (number : Float)
  | signal
  deriving Repr

namespace Value

/-- The value that stands for an undefined result; it is quiet. -/
def undefined : Value := float Number.notANumber

/-- The value that 64 bits denote. -/
def ofBits (bits : UInt64) : Value :=
  if Number.isSignalling bits.toNat then signal else float (Float.ofBits bits)

/-- A value as a float; a signal becomes quiet. -/
def toFloat : Value → Float
  | float number => number
  | signal => Number.notANumber

end Value

end ParamSweep.Formula
