import ParamSweep.Fault

/-!
# Statistics that a client can ask for

A request for a statistic is the mark `STAT_` followed by the word for one of three figures
about the sweeps that succeeded so far.
-/

namespace ParamSweep

/-- A figure about the successful sweeps. -/
inductive Statistic
  | requests
  | averageTime
  | longestTime
  deriving DecidableEq, Repr

namespace Statistic

/-- What a request for a statistic starts with. -/
def mark : String := "STAT_"

/-- The word for a statistic. -/
def word : Statistic → String
  | requests => "REQS"
  | averageTime => "AVG_TIME"
  | longestTime => "MAX_TIME"

/-- The statistic that a word stands for. -/
def ofWord? : String → Option Statistic
  | "REQS" => some requests
  | "AVG_TIME" => some averageTime
  | "MAX_TIME" => some longestTime
  | _ => none

/-- Reads a request for a statistic. -/
def read (command : String) : Except Fault Statistic :=
  match List.isPrefixOf? mark.toList command.toList with
  | none => .error (.argument .unknownStatistic)
  | some word =>
    match ofWord? (String.ofList word) with
    | some statistic => .ok statistic
    | none => .error (.argument .unknownStatistic)

end Statistic

end ParamSweep
