import ParamSweep.Number.Binary64
import ParamSweep.Number.Decimal

/-!
# The shortest decimal that reads back

The reals that round to one binary64 number form an interval around it; the ends belong to it
exactly when the mantissa is even. The shortest decimal of the number is the point of the
coarsest decimal grid that has a point in this interval, and of two such points the nearer
one. An exact tie goes to the larger point.

The search walks the grids from coarse to fine. A grid is tested only at the two neighbours
of the number on it: if any point of the grid lies in the interval, one of these does. The
finest grid that can be needed has the spacing `10 ^ (-1074)`, on which every finite number
is itself a point, so the search never runs out.
-/

namespace ParamSweep.Number

/-- The interval of reals that round to a positive number, over one common denominator. -/
structure RoundingInterval where
  lower : Nat
  middle : Nat
  upper : Nat
  denominator : Nat
  closed : Bool
  deriving DecidableEq, Repr

namespace RoundingInterval

/-- The interval around `mantissa * 2 ^ exponent`. The neighbour below is only half as far
away when the mantissa is the smallest of its binade. -/
def around (mantissa : Nat) (exponent : Int) : RoundingInterval :=
  let narrow := mantissa = Binary64.hiddenBit ∧ Binary64.leastExponent < exponent
  let unit := Binary64.numerator 1 (exponent - 2)
  { lower := (4 * mantissa - (if narrow then 1 else 2)) * unit
    middle := 4 * mantissa * unit
    upper := (4 * mantissa + 2) * unit
    denominator := Binary64.denominator (exponent - 2)
    closed := mantissa % 2 = 0 }

/-- Numerator of the grid spacing `10 ^ exponent`. -/
def spacing (exponent : Int) : Nat := powerOfTen exponent.toNat

/-- Denominator of the grid spacing `10 ^ exponent`. -/
def fineness (exponent : Int) : Nat := powerOfTen (-exponent).toNat

/-- Whether the grid point `units * 10 ^ exponent` lies in the interval. -/
def covers (interval : RoundingInterval) (exponent : Int) (units : Nat) : Bool :=
  let point := units * spacing exponent * interval.denominator
  let lower := interval.lower * fineness exponent
  let upper := interval.upper * fineness exponent
  if interval.closed then lower ≤ point ∧ point ≤ upper else lower < point ∧ point < upper

/-- The greatest grid point that is not above the middle of the interval. -/
def neighbourBelow (interval : RoundingInterval) (exponent : Int) : Nat :=
  interval.middle * fineness exponent / (interval.denominator * spacing exponent)

/-- Whether the point above the middle is at least as near to it as the point below. -/
def prefersAbove (interval : RoundingInterval) (exponent : Int) (below : Nat) : Bool :=
  (2 * below + 1) * spacing exponent * interval.denominator ≤
    2 * interval.middle * fineness exponent

/-- The point of one grid that represents the interval, if the grid has one. -/
def onGrid? (interval : RoundingInterval) (exponent : Int) : Option Nat :=
  let below := interval.neighbourBelow exponent
  match interval.covers exponent below, interval.covers exponent (below + 1) with
  | true, true => some (if interval.prefersAbove exponent below then below + 1 else below)
  | true, false => some below
  | false, true => some (below + 1)
  | false, false => none

/-- The first grid with a point, among `count` grids from `exponent` downwards. -/
def search (interval : RoundingInterval) (exponent : Int) : (count : Nat) → Decimal
  | 0 => ⟨interval.neighbourBelow exponent, exponent⟩
  | count + 1 =>
    match interval.onGrid? exponent with
    | some units => ⟨units, exponent⟩
    | none => search interval (exponent - 1) count

/-- A grid so coarse that its first point lies above the interval. -/
def coarsest (interval : RoundingInterval) : Nat :=
  (digits (interval.upper / interval.denominator)).length

end RoundingInterval

/-- The shortest decimal that reads back as the positive number `mantissa * 2 ^ exponent`. -/
def shortest (mantissa : Nat) (exponent : Int) : Decimal :=
  let interval := RoundingInterval.around mantissa exponent
  interval.search interval.coarsest (interval.coarsest + 1074)

end ParamSweep.Number
