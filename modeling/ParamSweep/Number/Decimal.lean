import ParamSweep.Number.Power

/-!
# Decimal numbers and their positional text

A decimal is a natural number of units of a power of ten. Its text is positional: all digits
are written out and no exponent ever appears. `pointed` writes a number of units with a fixed
count of places; `Decimal.plain` uses it for negative exponents and pads with zeros for the
others.
-/

namespace ParamSweep.Number

/-- The number `units * 10 ^ exponent`. -/
structure Decimal where
  units : Nat
  exponent : Int
  deriving DecidableEq, Repr

/-- The decimal digits of a number, most significant first; zero has one digit. -/
def digits (n : Nat) : List Char := Nat.toDigits 10 n

/-- The digits of a number, filled with zeros on the left up to `width`. -/
def padded (width n : Nat) : List Char :=
  List.replicate (width - (digits n).length) '0' ++ digits n

/-- `units * 10 ^ (-places)` with exactly `places` digits after the point. -/
def pointed (units places : Nat) : List Char :=
  digits (units / powerOfTen places) ++ '.' :: padded places (units % powerOfTen places)

/-- The number that a run of digits denotes, given the number denoted by the digits before. -/
def unitsOf (run : List Char) : Nat :=
  run.foldl (fun n c => 10 * n + (c.toNat - '0'.toNat)) 0

namespace Decimal

/-- Positional text without a sign. Whole numbers have no point. -/
def plain (d : Decimal) : List Char :=
  if 0 ≤ d.exponent then
    digits d.units ++ List.replicate d.exponent.toNat '0'
  else
    pointed d.units (-d.exponent).toNat

/-- The float nearest to a decimal; a decimal beyond the largest float becomes infinite. -/
def toFloat (d : Decimal) : Float :=
  Float.ofScientific d.units (decide (d.exponent < 0)) d.exponent.natAbs

end Decimal

end ParamSweep.Number
