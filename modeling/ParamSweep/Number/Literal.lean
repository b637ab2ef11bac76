import ParamSweep.Number.Decimal

/-!
# Number literals

A literal is a run of digits, optionally followed by one point and another run of digits;
neither run is empty. A signed literal may have one minus sign in front. Exponents, a plus
sign, a point at either end and digits other than `0` to `9` are no part of the grammar.

A literal denotes an exact decimal, and its float is the one nearest to that decimal: a
literal beyond the largest float denotes infinity.
-/

namespace ParamSweep.Number.Literal

/-- A non-empty run of the digits `0` to `9`. -/
def isDigits (text : List Char) : Bool := !text.isEmpty && text.all Char.isDigit

/-- What stands before the first point, and what stands after it if there is one. -/
def parts (text : List Char) : List Char × Option (List Char) :=
  match text.dropWhile (· ≠ '.') with
  | [] => (text, none)
  | _ :: fraction => (text.takeWhile (· ≠ '.'), some fraction)

/-- Whether a text is a number literal without a sign. -/
def isLiteral (text : List Char) : Bool :=
  let (whole, fraction) := parts text
  isDigits whole && fraction.all isDigits

/-- The exact decimal that a literal denotes. -/
def decimal (text : List Char) : Decimal :=
  let (whole, fraction) := parts text
  let fraction := fraction.getD []
  ⟨unitsOf (whole ++ fraction), -(fraction.length : Int)⟩

/-- Reads a literal without a sign. -/
def read? (text : List Char) : Option Float :=
  if isLiteral text then some (decimal text).toFloat else none

/-- Reads a literal that may have a minus sign. -/
def readSigned? : List Char → Option Float
  | '-' :: text => (read? text).map Float.neg
  | text => read? text

end ParamSweep.Number.Literal
