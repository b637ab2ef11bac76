import ParamSweep.Service.Basic

/-!
# Replaying connections

A replay serves given feeds one after the other on one worker and reports what every
connection got. It is one particular run of the service: whatever is read is answered before
anything else is read.

A replay can also be made with a pool that is closed from the start, or with one that never
starts a job and stops some time into the first connection. Then everything read before that
instant is queued first, and answered once the pool has stopped.
-/

namespace ParamSweep.Replay

/-- How the pool behaves during a replay. -/
inductive Workforce
  | working
  | closed
  | stalled (stopsAt : Duration)
  deriving DecidableEq, Repr

/-- One connection of a replay, and how many replies its writer manages. -/
structure Connection where
  feed : Feed
  capacity : Option Nat := none
  deriving Repr

/-- What became of a connection, and how many timings were recorded by its end. -/
structure Report where
  reason : CloseReason
  replies : List Reply
  records : Nat
  deriving Repr

/-- Reads one item of a session and answers it, running its job on the first worker. -/
def turn (session : Nat) : List Action :=
  [.read session, .start 0, .execute 0 .zero, .deliver 0, .write session]

/-- An action taken several times in a row. -/
def repeated (count : Nat) (actions : List Action) : List Action :=
  (List.replicate count actions).flatten

/-- The actions that serve a session whose items come at the given instants. -/
def schedule (workforce : Workforce) (session : Nat) (instants : List Duration) :
    List Action :=
  match workforce with
  | .working => repeated (instants.length + 1) (turn session)
  | .closed => .stop :: repeated (instants.length + 1) (turn session)
  | .stalled stopsAt =>
    let early := instants.takeWhile (·.nanoseconds < stopsAt.nanoseconds)
    repeated early.length [.read session] ++ .stop :: repeated early.length [.write session] ++
      repeated (instants.length - early.length + 1) (turn session)

/-- The pool after the first connection: one that stops has stopped by then. -/
def Workforce.later : Workforce → Workforce
  | .working => .working
  | _ => .closed

/-- Serves the connections in order and reports on each. -/
def reports (limit : Nat) (patience : Duration) :
    Workforce → Service → List Connection → List Report
  | _, _, [] => []
  | workforce, service, connection :: connections =>
    let intake := Intake.ofFeed limit patience connection.feed
    let position := service.sessions.size
    let session := Session.ofIntake intake connection.capacity
    let served := (service.connect session).attempt
      (schedule workforce position (intake.items.map (·.1)))
    let ended := served.sessions.getD position session
    { reason := ended.closed.getD intake.reason
      replies := ended.written.toList
      records := served.timings.size } ::
      reports limit patience workforce.later served connections

/-- Replays connections on a fresh service with one worker. -/
def run (limit : Nat) (patience : Duration) (workforce : Workforce)
    (connections : List Connection) : List Report :=
  reports limit patience workforce (.ofWidth 1) connections

end ParamSweep.Replay
