import ParamSweep.Line.Inbound
import ParamSweep.Request.Basic
import ParamSweep.Timings

/-!
# Dispatching lines to jobs

A line is answered at once, ends the connection, or becomes a job that is run later. Only a
request for a statistic and a sweep whose message reads without fault become jobs; an inbound
item that is no line of text is answered at once. A job ends with a reply or crashes; it
records its time exactly if it is a sweep that succeeds, and the record is made by the time the
reply exists.
-/

namespace ParamSweep

/-- Work that yields exactly one reply. -/
inductive Job
  | sweep (sweep : Sweep)
  | statistic (statistic : Statistic)
  deriving Repr

/-- What a crashed job left behind to explain itself. -/
inductive Crash
  | explained (sentence : String)
  | unexplained
  deriving DecidableEq, Repr

/-- How a job ended. -/
inductive Outcome
  | replied (reply : Reply)
  | crashed (crash : Crash)
  deriving Repr

/-- What to do with a line. -/
inductive Dispatch
  | reply (reply : Reply)
  | submit (job : Job)
  | quit (reply : Reply)
  deriving Repr

namespace Crash

/-- The sentence that a client gets for a crash. -/
def sentence : Crash → String
  | explained sentence => sentence
  | unexplained => "worker panicked"

/-- The crash of a summary whose sum of times cannot be stored. -/
def sumOverflow : Crash := .explained "overflow in iter::sum over durations"

end Crash

namespace Outcome

/-- The reply of a job, however it ended. -/
def reply : Outcome → Reply
  | replied reply => reply
  | crashed crash => .ofFault (.service (.other crash.sentence))

end Outcome

namespace Job

/-- Ends the job of a sweep: the time of a sweep that succeeded is recorded. -/
def endSweep (result : Except Fault Answer) (elapsed : Duration) (timings : Timings) :
    Outcome × Timings :=
  match result with
  | .ok answer => (.replied (.success elapsed answer), timings.record elapsed)
  | .error fault => (.replied (.ofFault fault), timings)

/-- Ends the job of a statistic, which only looks at the timings. -/
def endStatistic (wanted : Statistic) (elapsed : Duration) (timings : Timings) :
    Outcome × Timings :=
  match timings.reply? wanted elapsed with
  | some reply => (.replied reply, timings)
  | none => (.crashed .sumOverflow, timings)

/-- Runs a job that takes some time. -/
def run (job : Job) (elapsed : Duration) (timings : Timings) : Outcome × Timings :=
  match job with
  | .sweep wanted => endSweep wanted.run elapsed timings
  | .statistic wanted => endStatistic wanted elapsed timings

end Job

namespace Dispatch

/-- Decides what to do with a line. -/
def ofLine (line : String) : Dispatch :=
  let request := Request.ofMessage line
  match request.kind with
  | .quit => .quit .acknowledged
  | .statistic =>
    match request.statistic with
    | .ok statistic => .submit (.statistic statistic)
    | .error fault => .reply (.ofFault fault)
  | .sweep =>
    match request.sweep with
    | .ok sweep => .submit (.sweep sweep)
    | .error fault => .reply (.ofFault fault)
  | .unknown => .reply (.ofFault .unknownCommand)

/-- Decides what to do with an inbound item. -/
def ofInbound : Inbound → Dispatch
  | .line text => ofLine text
  | .overlong => .reply (.ofFault (.service .lineTooLong))
  | .notText => .reply (.ofFault (.service .notText))

end Dispatch

end ParamSweep
