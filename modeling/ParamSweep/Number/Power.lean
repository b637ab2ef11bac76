/-!
# Powers of two and of ten

The two bases of this library: binary numbers count in powers of two and their texts in powers
of ten. Both powers are natural numbers; a negative exponent stands in a denominator.
-/

namespace ParamSweep.Number

/-- Two to the power of `exponent`. -/
def powerOfTwo (exponent : Nat) : Nat := Nat.pow 2 exponent

/-- Ten to the power of `exponent`. -/
def powerOfTen (exponent : Nat) : Nat := Nat.pow 10 exponent

/-- Powers of two can be divided by. -/
theorem powerOfTwo_pos (exponent : Nat) : 0 < powerOfTwo exponent := Nat.pow_pos Nat.two_pos

/-- Powers of ten can be divided by. -/
theorem powerOfTen_pos (exponent : Nat) : 0 < powerOfTen exponent :=
  Nat.pow_pos (Nat.succ_pos 9)

end ParamSweep.Number
