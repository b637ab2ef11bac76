import ParamSweep.Dispatch

/-!
# The pool of workers

A pool runs jobs with a fixed number of workers, at least one. A submitted job gets a ticket
and waits in a queue; an idle worker takes the job at the head. When the job has ended the
worker holds its reply, hands it over under the ticket and is idle again, whatever became of
the job and whether or not anybody still waits for the reply.

A pool that stops for good drops the jobs still in its queue and refuses later ones. It stops
only when every worker is idle: none runs a job, and none still holds the reply of a job that has
ended.

The operations that end in a question mark are steps of the pool: they yield nothing where the
step is not possible. Which of the possible steps comes next is left open.
-/

namespace ParamSweep

/-- A job in the pool, and the ticket under which its reply is handed over. -/
structure Task (J : Type) where
  ticket : Nat
  job : J
  deriving Repr

/-- What a worker is doing. -/
inductive Worker (J : Type)
  | idle
  | running (task : Task J)
  | finished (ticket : Nat) (reply : Reply)
  deriving Repr

/-- What became of a ticket. -/
inductive Fate
  | pending
  | answered (reply : Reply)
  | dropped
  | abandoned
  deriving Repr

namespace Worker

variable {J : Type}

/-- Whether a worker is free to take a job. -/
def isIdle : Worker J → Bool
  | idle => true
  | _ => false

end Worker

namespace Fate

/-- A pending ticket is settled; any other stays what it is. -/
def settle (verdict : Fate) : Fate → Fate
  | pending => verdict
  | fate => fate

end Fate

/-- Workers, the queue in front of them, and the fate of every ticket given out. -/
structure Pool (J : Type) where
  workers : List (Worker J)
  queue : List (Task J) := []
  fates : Array Fate := #[]
  accepting : Bool := true
  deriving Repr

namespace Pool

variable {J : Type}

/-- A pool of idle workers. A width of zero is raised to one. -/
def ofWidth (width : Nat) : Pool J := { workers := List.replicate (max width 1) .idle }

/-- The number of workers. -/
def width (pool : Pool J) : Nat := pool.workers.length

/-- The fate of a ticket. -/
def fate (pool : Pool J) (ticket : Nat) : Fate := pool.fates.getD ticket .abandoned

/-- Settles a ticket. -/
def settle (pool : Pool J) (verdict : Fate) (ticket : Nat) : Pool J :=
  { pool with fates := pool.fates.modify ticket (Fate.settle verdict) }

/-- Forgets who waits for a ticket. -/
def abandon (pool : Pool J) (ticket : Nat) : Pool J :=
  { pool with fates := pool.fates.modify ticket fun _ => .abandoned }

/-- Queues a job and gives out its ticket, unless the pool has stopped. -/
def submit? (pool : Pool J) (job : J) : Option (Nat × Pool J) :=
  if pool.accepting then
    let ticket := pool.fates.size
    some (ticket,
      { pool with queue := pool.queue ++ [⟨ticket, job⟩], fates := pool.fates.push .pending })
  else
    none

/-- An idle worker takes the job at the head of the queue. -/
def start? (pool : Pool J) (worker : Nat) : Option (Pool J) :=
  match pool.workers[worker]?, pool.queue with
  | some .idle, task :: queue =>
    some { pool with workers := pool.workers.set worker (.running task), queue }
  | _, _ => none

/-- The task that a worker is running. -/
def running? (pool : Pool J) (worker : Nat) : Option (Task J) :=
  match pool.workers[worker]? with
  | some (.running task) => some task
  | _ => none

/-- The job of a worker ends. -/
def finish? (pool : Pool J) (worker : Nat) (outcome : Outcome) : Option (Pool J) :=
  (pool.running? worker).map fun task =>
    { pool with workers := pool.workers.set worker (.finished task.ticket outcome.reply) }

/-- A worker hands over the reply of the job that ended. -/
def deliver? (pool : Pool J) (worker : Nat) : Option (Pool J) :=
  match pool.workers[worker]? with
  | some (.finished ticket reply) =>
    some (settle { pool with workers := pool.workers.set worker .idle } (.answered reply) ticket)
  | _ => none

/-- The pool stops for good, if every worker is idle. -/
def stop? (pool : Pool J) : Option (Pool J) :=
  if pool.workers.all Worker.isIdle then
    some <| pool.queue.foldl (fun pool task => pool.settle .dropped task.ticket)
      { pool with queue := [], accepting := false }
  else
    none

/-- Runs the job at the head of the queue to its end on the first worker. -/
def runNext? (pool : Pool J) (run : J → Outcome) : Option (Pool J) := do
  let started ← pool.start? 0
  let task ← started.running? 0
  let finished ← started.finish? 0 (run task.job)
  finished.deliver? 0

/-- Runs queued jobs one after the other, at most `count` of them. -/
def runQueued (run : J → Outcome) : (count : Nat) → Pool J → Pool J
  | 0, pool => pool
  | count + 1, pool =>
    match pool.runNext? run with
    | some pool => runQueued run count pool
    | none => pool

/-- Submits jobs in order, as far as the pool takes them. -/
def submitAll (pool : Pool J) (jobs : List J) : Pool J :=
  jobs.foldl (fun pool job => ((pool.submit? job).map (·.2)).getD pool) pool

/-- The replies of a pool of some width to jobs that are submitted together. -/
def repliesTo (run : J → Outcome) (width : Nat) (jobs : List J) : List Reply :=
  let ended := runQueued run jobs.length ((ofWidth width).submitAll jobs)
  ended.fates.toList.filterMap fun
    | .answered reply => some reply
    | _ => none

end Pool

end ParamSweep
