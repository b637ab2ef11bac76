/-!
# Aggregates

An aggregate folds the values of a sweep into one. A tally keeps what every aggregate needs:
it counts the finite values, remembers the least and the greatest of them, and sums them with
a compensation for what each addition rounds away. Values that are infinite or not a number
leave a tally as it was.

The average is the compensated sum over the count. Where that sum has left the range of
floats, the running mean stands in for it; every step of the running mean stays within range.
Without any finite value every aggregate is zero.
-/

namespace ParamSweep

/-- What is wanted of the values of a sweep. -/
inductive Aggregate
  | least
  | greatest
  | average
  | count
  deriving DecidableEq, Repr

namespace Aggregate

/-- The word for an aggregate. -/
def word : Aggregate → String
  | least => "MIN"
  | greatest => "MAX"
  | average => "AVG"
  | count => "COUNT"

/-- The aggregate that a word stands for. -/
def ofWord? : String → Option Aggregate
  | "MIN" => some least
  | "MAX" => some greatest
  | "AVG" => some average
  | "COUNT" => some count
  | _ => none

end Aggregate

/-- What is known about the finite values seen so far. -/
structure Tally where
  count : Nat := 0
  sum : Float := 0
  compensation : Float := 0
  mean : Float := 0
  least : Float := 1.0 / 0.0
  greatest : Float := -1.0 / 0.0
  deriving Repr

namespace Tally

/-- A tally of no values. -/
def empty : Tally := {}

/-- What the addition of a value to a sum rounds away, on top of what was lost before. -/
def compensate (compensation sum value : Float) : Float :=
  let total := sum + value
  if value.abs ≤ sum.abs then
    compensation + ((sum - total) + value)
  else
    compensation + ((value - total) + sum)

/-- Counts a finite value. -/
def pushFinite (tally : Tally) (value : Float) : Tally :=
  let count := tally.count + 1
  let n := Float.ofNat count
  { count
    sum := tally.sum + value
    compensation := compensate tally.compensation tally.sum value
    mean := tally.mean + (value / n - tally.mean / n)
    least := if value < tally.least then value else tally.least
    greatest := if tally.greatest < value then value else tally.greatest }

/-- Counts a value if it is finite. -/
def push (tally : Tally) (value : Float) : Tally :=
  if value.isFinite then tally.pushFinite value else tally

/-- The average of the values seen. -/
def average (tally : Tally) : Float :=
  let total := tally.sum + tally.compensation
  if total.isFinite then total / Float.ofNat tally.count else tally.mean

/-- The aggregate of the values seen; zero if there was none. -/
def finish (tally : Tally) (aggregate : Aggregate) : Float :=
  if tally.count = 0 then
    0
  else
    match aggregate with
    | .least => tally.least
    | .greatest => tally.greatest
    | .average => tally.average
    | .count => Float.ofNat tally.count

end Tally

end ParamSweep
