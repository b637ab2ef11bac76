import ParamSweep.Request.Statistic
import ParamSweep.Request.SweepMessage

/-!
# Requests

A request is one message of a client. What stands before its first semicolon is its command,
and the command alone decides what kind of request it is: three tables hold the commands of
each kind, and everything else is unknown. Commands are compared exactly.
-/

namespace ParamSweep

/-- The kinds of requests. -/
inductive RequestKind
  | quit
  | statistic
  | sweep
  | unknown
  deriving DecidableEq, Repr

namespace RequestKind

/-- Commands that end the connection. -/
def quitCommands : List String := ["BYE"]

/-- Commands that ask for a statistic. -/
def statisticCommands : List String := ["STAT_REQS", "STAT_AVG_TIME", "STAT_MAX_TIME"]

/-- Commands that ask for a sweep. -/
def sweepCommands : List String :=
  ["MIN_GRID", "MAX_GRID", "AVG_GRID", "COUNT_GRID",
    "MIN_LIST", "MAX_LIST", "AVG_LIST", "COUNT_LIST"]

/-- The kind of request that a command makes. -/
def ofCommand (command : String) : RequestKind :=
  if quitCommands.contains command then quit
  else if statisticCommands.contains command then statistic
  else if sweepCommands.contains command then sweep
  else unknown

end RequestKind

/-- A message with its command and its kind. -/
structure Request where
  message : String
  command : String
  kind : RequestKind
  deriving Repr

namespace Request

/-- What stands before the first semicolon of a message. -/
def commandOf (message : String) : String :=
  String.ofList (message.toList.takeWhile (· ≠ ';'))

/-- Classifies a message. -/
def ofMessage (message : String) : Request :=
  let command := commandOf message
  { message, command, kind := .ofCommand command }

/-- The sweep that a request asks for. -/
def sweep (request : Request) : Except Fault Sweep :=
  match request.kind with
  | .sweep => Sweep.read request.message
  | _ => .error .unknownCommand

/-- The statistic that a request asks for. -/
def statistic (request : Request) : Except Fault Statistic :=
  match request.kind with
  | .statistic => Statistic.read request.command
  | _ => .error .unknownCommand

end Request

end ParamSweep
