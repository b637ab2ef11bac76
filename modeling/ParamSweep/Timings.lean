import ParamSweep.Reply
import ParamSweep.Request.Statistic

/-!
# Timings

The times that successful sweeps took, in the order in which they ended. A summary gives their
number, their average, and the longest of them; without any time the average and the longest are
zero. There is no summary if the sum of the times cannot be stored.

The average is rounded down to a nanosecond. Where the number of times does not fit into 32 bits,
the average is formed from seconds as floats instead and is rounded to the nearest nanosecond.
-/

namespace ParamSweep

/-- The recorded times, oldest first. -/
structure Timings where
  times : Array Duration := #[]
  deriving Repr

namespace Timings

/-- The figures about the recorded times. -/
structure Summary where
  requests : Nat
  average : Duration
  longest : Duration
  deriving DecidableEq, Repr

/-- No time recorded. -/
def empty : Timings := {}

/-- How many times are recorded. -/
def size (timings : Timings) : Nat := timings.times.size

/-- Records one more time. -/
def record (timings : Timings) (elapsed : Duration) : Timings :=
  { times := timings.times.push elapsed }

/-- Averages over fewer times than this are whole nanoseconds of their sum. -/
def wholeLimit : Nat := Number.powerOfTwo 32

/-- The average of a number of times, given their sum. -/
def average? (total : Duration) (count : Nat) : Option Duration :=
  if count = 0 then some .zero
  else if count < wholeLimit then some ⟨total.nanoseconds / count⟩
  else Duration.ofSeconds? (total.toSeconds / Float.ofNat count)

/-- The figures about the recorded times, if their sum can be stored. -/
def summary? (timings : Timings) : Option Summary := do
  let total ← Duration.sum? timings.times.toList
  let average ← average? total timings.size
  return {
    requests := timings.size
    average
    longest := .longest timings.times.toList }

/-- The answer for a statistic. -/
def Summary.answer (summary : Summary) : Statistic → Answer
  | .requests => .whole summary.requests
  | .averageTime => .decimal summary.average.toSeconds
  | .longestTime => .decimal summary.longest.toSeconds

/-- The reply to a request for a statistic that took some time to serve. -/
def reply? (timings : Timings) (statistic : Statistic) (elapsed : Duration) : Option Reply :=
  timings.summary?.map fun summary => .success elapsed (summary.answer statistic)

end Timings

end ParamSweep
