import ParamSweep.Service.Session

/-!
# The service as a system of steps

A service is any number of sessions over one pool and one record of timings. Its readers,
writers and workers move independently; an action is one step of one of them, and a run is any
sequence of actions that were possible when they were taken. What holds along every run holds
for every way in which the parts may interleave and for every time a job may take.

A job runs and records its time in a single step, `execute`; its reply is handed over later,
in the step `deliver`.
-/

namespace ParamSweep

/-- One step of one part of a service. Sessions and workers are counted from zero. -/
inductive Action
  | read (session : Nat)
  | write (session : Nat)
  | start (worker : Nat)
  | execute (worker : Nat) (elapsed : Duration)
  | deliver (worker : Nat)
  | stop
  deriving DecidableEq, Repr

/-- Sessions over one pool and one record of timings. -/
structure Service where
  pool : Pool Job
  timings : Timings := {}
  sessions : Array Session := #[]
  deriving Repr

namespace Service

/-- A service without sessions. -/
def ofWidth (width : Nat) : Service := { pool := .ofWidth width }

/-- The service with one more session. -/
def connect (service : Service) (session : Session) : Service :=
  { service with sessions := service.sessions.push session }

/-- A step of one session together with the pool. -/
def stepSession? (service : Service) (position : Nat)
    (step : Session → Pool Job → Option (Session × Pool Job)) : Option Service := do
  let session ← service.sessions[position]?
  let (session, pool) ← step session service.pool
  return { service with pool, sessions := service.sessions.setIfInBounds position session }

/-- A step of the pool alone. -/
def stepPool? (service : Service) (pool : Option (Pool Job)) : Option Service :=
  pool.map fun pool => { service with pool }

/-- The job of a worker runs to its end. -/
def execute? (service : Service) (worker : Nat) (elapsed : Duration) : Option Service := do
  let task ← service.pool.running? worker
  let (outcome, timings) := task.job.run elapsed service.timings
  let pool ← service.pool.finish? worker outcome
  return { service with pool, timings }

/-- The service after an action, if the action is possible. -/
def step? (service : Service) : Action → Option Service
  | .read session => service.stepSession? session Session.read?
  | .write session => service.stepSession? session Session.write?
  | .start worker => service.stepPool? (service.pool.start? worker)
  | .execute worker elapsed => service.execute? worker elapsed
  | .deliver worker => service.stepPool? (service.pool.deliver? worker)
  | .stop => service.stepPool? service.pool.stop?

/-- The service after a run of possible actions. -/
def run? (service : Service) (actions : List Action) : Option Service :=
  actions.foldlM step? service

/-- The service after those of some actions that were possible in their turn. -/
def attempt (service : Service) (actions : List Action) : Service :=
  actions.foldl (fun service action => (service.step? action).getD service) service

end Service

end ParamSweep
