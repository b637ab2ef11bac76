import ParamSweep.Answer
import ParamSweep.Duration
import ParamSweep.Fault

/-!
# Replies

A reply is one line. `OK` alone acknowledges; a success adds the time that the request took,
in seconds with three places, and the answer; a failure is `ERR` with the text of every fault.
Fields stand between semicolons.

The time is cut to whole milliseconds before it is turned into a float.
-/

namespace ParamSweep

/-- What a client gets for one message. -/
inductive Reply
  | acknowledged
  | success (elapsed : Duration) (answer : Answer)
  | failure (faults : List Fault)
  deriving Repr

namespace Reply

/-- The reply for a single fault. -/
def ofFault (fault : Fault) : Reply := .failure [fault]

/-- Whether a reply reports no fault. -/
def isOk : Reply → Bool
  | failure _ => false
  | _ => true

/-- The time of a success. -/
def elapsed? : Reply → Option Duration
  | success elapsed _ => some elapsed
  | _ => none

/-- The answer of a success. -/
def answer? : Reply → Option Answer
  | success _ answer => some answer
  | _ => none

/-- The faults of a failure. -/
def faults : Reply → List Fault
  | failure faults => faults
  | _ => []

/-- The time field of a success. -/
def elapsedText (elapsed : Duration) : String :=
  Number.fixed 3 (Float.ofNat elapsed.milliseconds / 1000)

/-- The fields of a reply. -/
def fields : Reply → List String
  | acknowledged => ["OK"]
  | success elapsed answer => ["OK", elapsedText elapsed, answer.text]
  | failure faults => "ERR" :: faults.map Fault.message

/-- The line of a reply. -/
def text (reply : Reply) : String := String.intercalate ";" reply.fields

end Reply

end ParamSweep
