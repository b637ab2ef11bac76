import ParamSweep.Number.Rendering

/-!
# Durations

A duration is a natural number of nanoseconds. The seconds of a duration that is stored or
read must fit into 64 bits, which bounds what a sum of durations may be, and what a number of
seconds may be that is turned into a duration. Its text is the number of its largest unit, with
no zeros at the end of the fraction.
-/

namespace ParamSweep

/-- A span of time. -/
structure Duration where
  nanoseconds : Nat
  deriving DecidableEq, Repr

namespace Duration

/-- Nanoseconds in a second. -/
def nanosecondsPerSecond : Nat := 1000000000

/-- Durations that can be stored stay below this many nanoseconds. -/
def limit : Nat := Number.powerOfTwo 64 * nanosecondsPerSecond

/-- No time at all. -/
def zero : Duration := ⟨0⟩

/-- The duration of some seconds and nanoseconds. -/
def ofParts (seconds nanoseconds : Nat) : Duration :=
  ⟨seconds * nanosecondsPerSecond + nanoseconds⟩

/-- The duration of some milliseconds. -/
def ofMilliseconds (milliseconds : Nat) : Duration := ⟨milliseconds * 1000000⟩

/-- The whole seconds of a duration. -/
def seconds (duration : Duration) : Nat := duration.nanoseconds / nanosecondsPerSecond

/-- The nanoseconds beyond the whole seconds of a duration. -/
def fraction (duration : Duration) : Nat := duration.nanoseconds % nanosecondsPerSecond

/-- The whole milliseconds of a duration. -/
def milliseconds (duration : Duration) : Nat := duration.nanoseconds / 1000000

/-- The duration in seconds, as a float: the seconds and the fraction are rounded apart. -/
def toSeconds (duration : Duration) : Float :=
  Float.ofNat duration.seconds + Float.ofNat duration.fraction / 1000000000

/-- The duration nearest to a number of seconds, if it can be stored; half of a nanosecond goes
to the even neighbour. A negative number of seconds is no duration, nor is a special value. -/
def ofSeconds? (seconds : Float) : Option Duration :=
  match Number.Binary64.ofFloat seconds with
  | .finite negative mantissa exponent =>
    let nanoseconds := Number.roundHalfEven
      (Number.Binary64.numerator mantissa exponent * nanosecondsPerSecond)
      (Number.Binary64.denominator exponent)
    if negative && mantissa ≠ 0 then none
    else if nanoseconds < limit then some ⟨nanoseconds⟩
    else none
  | .infinite _ => none
  | .notANumber => none

/-- The sum of two durations. -/
def add (first second : Duration) : Duration := ⟨first.nanoseconds + second.nanoseconds⟩

/-- The sum of two durations, if it can be stored. -/
def add? (first second : Duration) : Option Duration :=
  if (first.add second).nanoseconds < limit then some (first.add second) else none

/-- The sum of many durations, if it can be stored. -/
def sum? (durations : List Duration) : Option Duration := durations.foldlM add? zero

/-- The longer of two durations. -/
def max (first second : Duration) : Duration :=
  if first.nanoseconds < second.nanoseconds then second else first

/-- The longest of many durations; none of them takes no time. -/
def longest (durations : List Duration) : Duration := durations.foldl max zero

/-- A count of `size`-nanosecond units, with `places` places and no zeros at the end. -/
def inUnits (nanoseconds places : Nat) (unit : String) : String :=
  let size := Number.powerOfTen places
  let decimals := (Number.padded places (nanoseconds % size)).reverse.dropWhile (· = '0')
  let whole := Number.digits (nanoseconds / size)
  let number := if decimals.isEmpty then whole else whole ++ '.' :: decimals.reverse
  String.ofList number ++ unit

/-- The text of a duration in its largest unit. -/
def text (duration : Duration) : String :=
  let nanoseconds := duration.nanoseconds
  if nanosecondsPerSecond ≤ nanoseconds then inUnits nanoseconds 9 "s"
  else if 1000000 ≤ nanoseconds then inUnits nanoseconds 6 "ms"
  else if 1000 ≤ nanoseconds then inUnits nanoseconds 3 "µs"
  else inUnits nanoseconds 0 "ns"

end Duration

end ParamSweep
