import ParamSweep.Number.Shortest

/-!
# The two texts of a float

`plain` writes the shortest decimal that reads back, positionally: no exponent, no point on
whole numbers. `fixed` writes the exact binary value rounded to a given count of places, a
half going to the even neighbour. Both keep the sign of a negative number even when the
magnitude they print is zero, and both write `inf`, `-inf` and `NaN` for the special values.
-/

namespace ParamSweep.Number

/-- Writes a sign and the text of a magnitude. -/
def signed (negative : Bool) (magnitude : List Char) : List Char :=
  if negative then '-' :: magnitude else magnitude

/-- The quotient rounded to the nearest natural number; a half goes to the even one. -/
def roundHalfEven (numerator denominator : Nat) : Nat :=
  let quotient := numerator / denominator
  let twice := 2 * (numerator % denominator)
  if twice < denominator then quotient
  else if denominator < twice then quotient + 1
  else quotient + quotient % 2

namespace Binary64

/-- Texts of the values that have no digits. -/
def infiniteText (negative : Bool) : List Char := signed negative "inf".toList

/-- Text of a value that is not a number. -/
def notANumberText : List Char := "NaN".toList

/-- The shortest positional text of a value. -/
def plain : Binary64 → List Char
  | .finite negative 0 _ => signed negative ['0']
  | .finite negative mantissa exponent => signed negative (shortest mantissa exponent).plain
  | .infinite negative => infiniteText negative
  | .notANumber => notANumberText

/-- The text of a value rounded to `places` digits after the point. -/
def fixed (places : Nat) : Binary64 → List Char
  | .finite negative mantissa exponent =>
    let scaled := numerator mantissa exponent * powerOfTen places
    let units := roundHalfEven scaled (denominator exponent)
    signed negative (pointed units places)
  | .infinite negative => infiniteText negative
  | .notANumber => notANumberText

end Binary64

/-- The shortest positional text of a float. -/
def plain (x : Float) : String := String.ofList (Binary64.ofFloat x).plain

/-- The text of a float with `places` digits after the point. -/
def fixed (places : Nat) (x : Float) : String :=
  String.ofList ((Binary64.ofFloat x).fixed places)

end ParamSweep.Number
