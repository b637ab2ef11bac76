import ParamSweep.Fault
import ParamSweep.Formula.Token
import ParamSweep.Text.Fields

/-!
# Domains

A domain is the range of one variable: a lower end, a step and an upper end, and the number of
points that lie on it. The points start at the lower end and go up by the step until the upper
end is reached or passed; so the number of points is the ceiling of `(upper - lower) / step`,
computed in floats, and one more.

A domain is refused if its step is not positive, if its ends are in the wrong order, or if it
has more points than a count can hold. The comparisons let a value that is not a number pass;
the quotient is then not a number either and has no ceiling.
-/

namespace ParamSweep

/-- Counts of points stay below this limit. -/
def countLimit : Nat := Number.powerOfTwo 64

/-- The range of one variable. -/
structure Domain where
  name : String
  lower : Float
  step : Float
  upper : Float
  size : Nat
  deriving Repr

namespace Domain

/-- How many steps lead from one end to the other, if a count can hold one more. -/
def steps? (lower step upper : Float) : Option Nat :=
  (Number.ceiling? ((upper - lower) / step)).filter (· + 1 < countLimit)

/-- The domain with the given ends and step. -/
def make (name : String) (lower step upper : Float) : Except Fault Domain :=
  if step ≤ 0 then
    .error .badStep
  else if upper < lower then
    .error .badRange
  else
    match steps? lower step upper with
    | some steps => .ok { name, lower, step, upper, size := steps + 1 }
    | none => .error (.argument .spaceTooLarge)

/-- Reads one number of a declaration. -/
def readNumber (text : List Char) : Except Fault Float :=
  match Number.Literal.readSigned? text with
  | some value => .ok value
  | none => .error (.formula .badVariable)

/-- Reads a declaration `name:lower:step:upper`. -/
def read (declaration : List Char) : Except Fault Domain :=
  match Text.pieces ':' declaration with
  | [name, lower, step, upper] =>
    if Formula.isName name then do
      let lower ← readNumber lower
      let step ← readNumber step
      let upper ← readNumber upper
      make (String.ofList name) lower step upper
    else
      .error (.formula .badVariable)
  | _ => .error (.formula .badVariable)

/-- The point with an index, counted from zero at the lower end. -/
def valueAt (domain : Domain) (index : Nat) : Float :=
  domain.lower + Float.ofNat index * domain.step

/-- The declaration that a domain is read from, with numbers in their shortest form. -/
def text (domain : Domain) : String :=
  String.intercalate ":"
    [domain.name, Number.plain domain.lower, Number.plain domain.step, Number.plain domain.upper]

end Domain

end ParamSweep
