import Mathlib.Data.List.Nodup
import ParamSweep.Proofs.Service.Custody

/-!
# What the clients of a pool can rely on

Clients and workers move a pool in turns that nobody arranges. A client submits a job or gives up
waiting for a ticket; a worker takes the job at the head of the queue, comes to the end of it with
whatever outcome, or hands over the reply. A ledger notes what the moves did, and from it and the
pool together it can be told what was promised: no more jobs run at a time than there are workers,
jobs are started in the order of their submission, each is run once, and its reply goes to its own
ticket and to no other.

Neither a job that crashes nor a client that gives up takes a worker away. So a job that waits can
be started as soon as some worker is not running one, and later submissions cannot put it off: the
moves that workers make are counted by the ledger, and each of them serves the jobs in order.
-/

namespace ParamSweep

variable {J : Type}

/-- The text of the reply for a crash carries its sentence. -/
theorem Outcome.text_reply_crashed (crash : Crash) :
    (crashed crash).reply.text = "ERR;(Exception) " ++ crash.sentence := by
  simp only [reply, Reply.ofFault, Reply.text, Reply.fields, List.map_cons, List.map_nil,
    Fault.message, Fault.code, Fault.sentence, ServiceFault.sentence]
  rfl

/-- One move of a client or of a worker. Workers are counted from zero. -/
inductive Move (J : Type)
  | submit (job : J)
  | abandon (ticket : Nat)
  | start (worker : Nat)
  | finish (worker : Nat) (outcome : Outcome)
  | deliver (worker : Nat)

/-- Whether it is a worker who moves. -/
def Move.isWorkers : Move J → Bool
  | .submit _ | .abandon _ => false
  | .start _ | .finish _ _ | .deliver _ => true

/-- The reply that a worker holds, and the ticket it is for. -/
def Worker.held? : Worker J → Option (Nat × Reply)
  | .finished ticket reply => some (ticket, reply)
  | _ => none

/-- What the moves of a pool did: the jobs that were submitted and started, those that ended and
how, the replies that were handed over, and the tickets that were given up. -/
structure Ledger (J : Type) where
  submitted : List (Task J) := []
  started : List (Task J) := []
  ended : List (Task J × Outcome) := []
  handed : List (Nat × Reply) := []
  abandoned : List Nat := []

namespace Ledger

/-- The runs of jobs, each with the reply it came to. -/
def executions (ledger : Ledger J) : List (Execution J) :=
  ledger.ended.map fun (task, outcome) => ⟨task.ticket, task.job, outcome.reply⟩

/-- The ledger after a move that led from one pool to another. -/
def note (ledger : Ledger J) (pool after : Pool J) : Move J → Ledger J
  | .submit job =>
    { ledger with
      submitted := ledger.submitted ++ ((pool.submit? job).map (⟨·.1, job⟩)).toList }
  | .abandon ticket => { ledger with abandoned := ledger.abandoned ++ [ticket] }
  | .start worker =>
    { ledger with started := ledger.started ++ (after.running? worker).toList }
  | .finish worker outcome =>
    { ledger with ended := ledger.ended ++ ((pool.running? worker).map (·, outcome)).toList }
  | .deliver worker =>
    { ledger with handed := ledger.handed ++ (pool.workers[worker]?.bind Worker.held?).toList }

end Ledger

namespace Pool

/-- A worker that was given a task is running it. -/
theorem running?_set {pool : Pool J} {worker : Nat} {old : Worker J}
    (stands : pool.workers[worker]? = some old) (task : Task J) (queue : List (Task J)) :
    running? { pool with workers := pool.workers.set worker (.running task), queue } worker =
      some task := by
  have place : worker < pool.workers.length := (List.getElem?_eq_some_iff.mp stands).1
  simp [running?, place]

/-- The pool after a move, if the move is possible. -/
def move? (pool : Pool J) : Move J → Option (Pool J)
  | .submit job => (pool.submit? job).map (·.2)
  | .abandon ticket => some (pool.abandon ticket)
  | .start worker => pool.start? worker
  | .finish worker outcome => pool.finish? worker outcome
  | .deliver worker => pool.deliver? worker

/-- The pool after moves that were all possible in their turn. -/
def moves? (pool : Pool J) (moves : List (Move J)) : Option (Pool J) := moves.foldlM move? pool

/-- The ledger of moves that start with some ledger. -/
def ledgerFrom (ledger : Ledger J) (pool : Pool J) : List (Move J) → Ledger J
  | [] => ledger
  | move :: moves =>
    match pool.move? move with
    | some next => next.ledgerFrom (ledger.note pool next move) moves
    | none => ledger

/-- The ledger of moves. -/
def ledger (pool : Pool J) (moves : List (Move J)) : Ledger J := pool.ledgerFrom {} moves

end Pool

/-- What a pool of some width and its ledger have in common. -/
structure Ledger.Agrees (ledger : Ledger J) (pool : Pool J) (width : Nat) : Prop where
  staff : pool.workers.length = max width 1
  custody : Custody pool ledger.submitted ledger.executions
  order : ledger.started ++ pool.queue = ledger.submitted
  held : (ledger.handed ++ pool.workers.filterMap Worker.held?).Perm
    (ledger.executions.map fun execution => (execution.ticket, execution.reply))
  served : ∀ ticket reply, (ticket, reply) ∈ ledger.handed → ticket ∉ ledger.abandoned →
    pool.fate ticket = .answered reply
  waiting : ∀ ticket, ticket < pool.fates.size → ticket ∉ ledger.handed.map Prod.fst →
    ticket ∉ ledger.abandoned → pool.fate ticket = .pending
  answered : ∀ ticket reply, pool.fate ticket = .answered reply →
    (ticket, reply) ∈ ledger.handed

namespace Ledger.Agrees

variable {ledger : Ledger J} {pool after : Pool J} {width : Nat}

/-- No reply is handed over twice. -/
theorem nodup_handed (agrees : ledger.Agrees pool width) :
    ((ledger.handed ++ pool.workers.filterMap Worker.held?).map Prod.fst).Nodup := by
  rw [(agrees.held.map Prod.fst).nodup_iff, List.map_map]
  exact agrees.custody.nodup_executed

/-- A reply is for a ticket that was given out. -/
theorem lt_of_reply (agrees : ledger.Agrees pool width) {ticket : Nat} {reply : Reply}
    (known : (ticket, reply) ∈ ledger.handed ++ pool.workers.filterMap Worker.held?) :
    ticket < pool.fates.size := by
  obtain ⟨execution, ran, same⟩ := List.mem_map.mp (agrees.held.mem_iff.mp known)
  obtain ⟨rfl, rfl⟩ := Prod.mk.inj same
  have listed := List.mem_map_of_mem (f := Task.ticket) (agrees.custody.task_mem ran)
  rwa [agrees.custody.tickets, List.mem_range] at listed

/-- A new pool agrees with an empty ledger. -/
theorem ofWidth (width : Nat) : ({} : Ledger J).Agrees (Pool.ofWidth width) width where
  staff := List.length_replicate
  custody := Custody.ofWidth width
  order := rfl
  held := by simp [Ledger.executions, Pool.ofWidth, List.filterMap_eq_nil_iff, Worker.held?]
  served := nofun
  waiting := nofun
  answered := nofun

/-- A job is submitted: its ticket is new, and its fate is open. -/
theorem submit (agrees : ledger.Agrees pool width) {job : J}
    (possible : pool.move? (.submit job) = some after) :
    (ledger.note pool after (.submit job)).Agrees after width := by
  obtain ⟨⟨ticket, next⟩, submitted, rfl⟩ := Option.map_eq_some_iff.mp possible
  have custody := agrees.custody.submit submitted
  obtain ⟨rfl, rfl⟩ := Pool.submit?_eq_some submitted
  have fates := pool.fate_push (pool.queue ++ [⟨pool.fates.size, job⟩])
  simp only [note, submitted, Option.map_some, Option.toList_some]
  refine ⟨agrees.staff, custody, ?_, agrees.held, ?_, ?_, ?_⟩
  · rw [← agrees.order, List.append_assoc]
  · intro ticket reply handed kept
    have known : ticket ≠ pool.fates.size :=
      Nat.ne_of_lt (agrees.lt_of_reply (List.mem_append_left _ handed))
    rw [fates, if_neg known]
    exact agrees.served ticket reply handed kept
  · intro ticket inside notHanded kept
    rw [fates]
    split
    next => rfl
    next other =>
      rw [Array.size_push] at inside
      exact agrees.waiting ticket (by omega) notHanded kept
  · intro ticket reply answered
    rw [fates] at answered
    split at answered
    · cases answered
    · exact agrees.answered ticket reply answered

/-- A reply is given up: nobody is told of it any more. -/
theorem abandon (agrees : ledger.Agrees pool width) (ticket : Nat) :
    (ledger.note pool (pool.abandon ticket) (.abandon ticket)).Agrees (pool.abandon ticket)
      width := by
  have fates := pool.fate_abandon ticket
  have others {other : Nat} (kept : other ∉ ledger.abandoned ++ [ticket]) :
      other ∉ ledger.abandoned ∧ ticket ≠ other := by
    simpa [eq_comm] using kept
  refine ⟨agrees.staff, agrees.custody.abandon ticket, agrees.order, agrees.held, ?_, ?_, ?_⟩
  · intro other reply handed kept
    rw [fates, if_neg (others kept).2]
    exact agrees.served other reply handed (others kept).1
  · intro other inside notHanded kept
    rw [fates, if_neg (others kept).2]
    exact agrees.waiting other (by simpa [Pool.abandon] using inside) notHanded (others kept).1
  · intro other reply answered
    rw [fates] at answered
    split at answered
    · cases answered
    · exact agrees.answered other reply answered

/-- A job is started: the worker that takes it holds no reply. -/
theorem start (agrees : ledger.Agrees pool width) {worker : Nat}
    (possible : pool.start? worker = some after) :
    (ledger.note pool after (.start worker)).Agrees after width := by
  have custody := agrees.custody.start possible
  obtain ⟨task, queue, idle, waiting, rfl⟩ := Pool.start?_eq_some possible
  simp only [note, Pool.running?_set idle task, Option.toList_some]
  refine ⟨?_, custody, ?_, ?_, agrees.served, agrees.waiting, agrees.answered⟩
  · rw [List.length_set, agrees.staff]
  · have before := agrees.order
    rw [waiting] at before
    simpa using before
  · have same := perm_filterMap_set Worker.held? idle (.running task)
    exact (same.append_left _).trans agrees.held

/-- A job ends, and its worker holds the reply. -/
theorem finish (agrees : ledger.Agrees pool width) {worker : Nat} {outcome : Outcome}
    (possible : pool.finish? worker outcome = some after) :
    (ledger.note pool after (.finish worker outcome)).Agrees after width := by
  obtain ⟨task, runs, -⟩ := Option.map_eq_some_iff.mp possible
  have custody := agrees.custody.finish runs possible
  have stands := Pool.running?_eq_some runs
  obtain rfl := Pool.finish?_eq_some runs possible
  simp only [note, runs, Option.map_some, Option.toList_some]
  refine ⟨?_, ?_, agrees.order, ?_, agrees.served, agrees.waiting, agrees.answered⟩
  · rw [List.length_set, agrees.staff]
  · simpa [executions] using custody
  · have changed := perm_filterMap_set Worker.held? stands (.finished task.ticket outcome.reply)
    have moved := (changed.append_left ledger.handed).trans
      (List.perm_append_comm_assoc _ _ _)
    simp only [executions, List.map_append, List.map_cons, List.map_nil]
    exact (moved.trans List.perm_append_comm).trans (agrees.held.append_right _)

/-- A reply is handed over: it was not before, and is now the fate of its ticket unless the ticket
was abandoned. -/
theorem deliver (agrees : ledger.Agrees pool width) {worker : Nat}
    (possible : pool.deliver? worker = some after) :
    (ledger.note pool after (.deliver worker)).Agrees after width := by
  have custody := agrees.custody.deliver possible
  obtain ⟨ticket, reply, stands, rfl⟩ := Pool.deliver?_eq_some possible
  have fates := pool.fate_deliver (pool.workers.set worker .idle) (.answered reply) ticket
  have holds : (ticket, reply) ∈ pool.workers.filterMap Worker.held? :=
    List.mem_filterMap.mpr ⟨_, List.mem_of_getElem? stands, rfl⟩
  have inside : ticket < pool.fates.size := agrees.lt_of_reply (List.mem_append_right _ holds)
  have first : ticket ∉ ledger.handed.map Prod.fst := by
    have distinct := agrees.nodup_handed
    rw [List.map_append, List.nodup_append] at distinct
    exact fun handed => distinct.2.2 ticket handed ticket (List.mem_map_of_mem holds) rfl
  simp only [note, stands, Option.bind_some, Worker.held?, Option.toList_some]
  refine ⟨?_, custody, agrees.order, ?_, ?_, ?_, ?_⟩
  · exact (List.length_set).trans agrees.staff
  · have changed := perm_filterMap_set Worker.held? stands .idle
    rw [List.append_assoc]
    exact (changed.append_left _).trans agrees.held
  · intro other answer handed kept
    rw [fates]
    rcases List.mem_append.mp handed with old | new
    · have apart : ticket ≠ other := by
        rintro rfl
        exact first (List.mem_map_of_mem old)
      rw [if_neg apart]
      exact agrees.served other answer old kept
    · obtain ⟨rfl, rfl⟩ := Prod.mk.inj (List.mem_singleton.mp new)
      rw [if_pos rfl, agrees.waiting other inside first kept]
      rfl
  · intro other known notHanded kept
    rw [Pool.size_fates_settle] at known
    have parts : other ∉ ledger.handed.map Prod.fst ∧ ticket ≠ other := by
      simpa [eq_comm] using notHanded
    rw [fates, if_neg parts.2]
    exact agrees.waiting other known parts.1 kept
  · intro other answer answered
    rw [fates] at answered
    split at answered
    next same =>
      subst same
      obtain ⟨-, now⟩ | ⟨-, before⟩ := Fate.eq_of_settle answered
      · cases now
        exact List.mem_append_right _ List.mem_cons_self
      · exact List.mem_append_left _ (agrees.answered ticket answer before)
    next => exact List.mem_append_left _ (agrees.answered other answer answered)

/-- Every move keeps what the ledger and the pool have in common. -/
theorem move (agrees : ledger.Agrees pool width) {move : Move J}
    (possible : pool.move? move = some after) :
    (ledger.note pool after move).Agrees after width := by
  cases move with
  | submit job => exact agrees.submit possible
  | abandon ticket =>
    obtain rfl := Option.some.inj possible
    exact agrees.abandon ticket
  | start worker => exact agrees.start possible
  | finish worker outcome => exact agrees.finish possible
  | deliver worker => exact agrees.deliver possible

/-- So does every run of moves. -/
theorem moves (agrees : ledger.Agrees pool width) {moves : List (Move J)}
    (ran : pool.moves? moves = some after) : (pool.ledgerFrom ledger moves).Agrees after width := by
  induction moves generalizing pool ledger with
  | nil =>
    obtain rfl := Option.some.inj ran
    exact agrees
  | cons first moves inductionHypothesis =>
    obtain ⟨next, possible, others⟩ := Option.bind_eq_some_iff.mp ran
    rw [Pool.ledgerFrom, possible]
    exact inductionHypothesis (agrees.move possible) others

/-- What was started is running or was run. -/
theorem perm_started (agrees : ledger.Agrees pool width) :
    (ledger.ended.map Prod.fst ++ pool.runningTasks).Perm ledger.started := by
  have places := agrees.custody.places
  rw [← agrees.order, List.perm_append_right_iff] at places
  simpa [executions, Execution.task, Function.comp_def] using places

end Ledger.Agrees

namespace Ledger

/-- How many moves of workers a ledger tells of. -/
def count (ledger : Ledger J) : Nat :=
  ledger.started.length + ledger.ended.length + ledger.handed.length

/-- A ledger counts the moves of workers. -/
theorem count_note {ledger : Ledger J} {pool after : Pool J} {move : Move J}
    (possible : pool.move? move = some after) :
    (ledger.note pool after move).count = ledger.count + if move.isWorkers then 1 else 0 := by
  cases move with
  | submit job => rfl
  | abandon ticket => rfl
  | start worker =>
    obtain ⟨task, queue, idle, waiting, rfl⟩ := Pool.start?_eq_some possible
    simp only [note, count, Pool.running?_set idle task, Option.toList_some, List.length_append,
      List.length_singleton, Move.isWorkers, if_true]
    omega
  | finish worker outcome =>
    obtain ⟨task, runs, -⟩ := Option.map_eq_some_iff.mp possible
    simp only [note, count, runs, Option.map_some, Option.toList_some, List.length_append,
      List.length_singleton, Move.isWorkers, if_true]
    omega
  | deliver worker =>
    obtain ⟨ticket, reply, stands, -⟩ := Pool.deliver?_eq_some possible
    simp only [note, count, stands, Option.bind_some, Worker.held?, Option.toList_some,
      List.length_append, List.length_singleton, Move.isWorkers, if_true]
    omega

/-- The ledger of a run tells of all moves of workers. -/
theorem count_ledgerFrom {ledger : Ledger J} {pool after : Pool J} {moves : List (Move J)}
    (ran : pool.moves? moves = some after) :
    (pool.ledgerFrom ledger moves).count = ledger.count + moves.countP Move.isWorkers := by
  induction moves generalizing pool ledger with
  | nil => rfl
  | cons first moves inductionHypothesis =>
    obtain ⟨next, possible, others⟩ := Option.bind_eq_some_iff.mp ran
    rw [Pool.ledgerFrom, possible, List.countP_cons]
    refine (inductionHypothesis others).trans ?_
    rw [count_note possible]
    omega

end Ledger

namespace Pool

/-- A worker that is not running a job can take the next one, once it has handed over the reply
that it may hold. -/
theorem exists_start {pool : Pool J} {task : Task J} {queue : List (Task J)}
    (waiting : pool.queue = task :: queue)
    (free : pool.runningTasks.length < pool.workers.length) :
    ∃ worker started,
      (pool.start? worker = some started ∨
        ∃ delivered, pool.deliver? worker = some delivered ∧
          delivered.start? worker = some started) ∧
      started.running? worker = some task ∧ started.queue = queue := by
  obtain ⟨state, member, notRunning⟩ := List.length_filterMap_lt_length_iff_exists.mp free
  obtain ⟨worker, stands⟩ := List.mem_iff_getElem?.mp member
  have place : worker < pool.workers.length := (List.getElem?_eq_some_iff.mp stands).1
  cases state with
  | running own => cases notRunning
  | idle =>
    refine ⟨worker, { pool with workers := pool.workers.set worker (.running task), queue },
      .inl ?_, running?_set stands task queue, rfl⟩
    simp only [start?, stands, waiting]
  | finished ticket reply =>
    refine ⟨worker, settle { pool with workers := pool.workers.set worker (.running task), queue }
      (.answered reply) ticket, .inr ⟨settle { pool with workers := pool.workers.set worker .idle }
        (.answered reply) ticket, ?_, ?_⟩, running?_set stands task queue, rfl⟩
    · simp only [deliver?, stands]
    · simp [start?, settle, place, waiting]

/-- A pool in which no worker can move has nothing left to do. -/
theorem exhausted {pool : Pool J} (staffed : pool.workers ≠ [])
    (stuck : ∀ move : Move J, move.isWorkers = true → pool.move? move = none) :
    pool.queue = [] ∧ ∀ worker ∈ pool.workers, worker = .idle := by
  have idle : ∀ worker ∈ pool.workers, worker = .idle := by
    intro state member
    obtain ⟨worker, stands⟩ := List.mem_iff_getElem?.mp member
    cases state with
    | idle => rfl
    | running task =>
      have finishes := stuck (.finish worker (.crashed .unexplained)) rfl
      simp [move?, finish?, running?, stands] at finishes
    | finished ticket reply =>
      have delivers := stuck (.deliver worker) rfl
      simp [move?, deliver?, stands] at delivers
  refine ⟨?_, idle⟩
  by_contra waits
  obtain ⟨task, queue, waiting⟩ := List.exists_cons_of_ne_nil waits
  obtain ⟨first, workers, staff⟩ := List.exists_cons_of_ne_nil staffed
  obtain rfl : first = .idle := idle first (staff ▸ List.mem_cons_self)
  have starts := stuck (.start 0) rfl
  simp [move?, start?, staff, waiting] at starts

end Pool

/-- What holds of a pool of some width after moves of its clients and workers. -/
structure Protocol (width : Nat) (moves : List (Move J)) (ledger : Ledger J) (pool : Pool J) :
    Prop where
  /-- A job that is submitted is accepted and gets the next ticket. -/
  accepts : ∀ job, (pool.submit? job).map Prod.fst = some pool.fates.size
  tickets : ledger.submitted.map Task.ticket = List.range pool.fates.size
  /-- Workers neither go nor come, whatever became of jobs and tickets. -/
  staff : pool.workers.length = max width 1
  running_le : pool.runningTasks.length ≤ max width 1
  /-- Jobs are started in the order of their submission. -/
  order : ledger.started ++ pool.queue = ledger.submitted
  /-- A job that was started is being run or was run, and not both. -/
  once : (ledger.ended.map Prod.fst ++ pool.runningTasks).Perm ledger.started
  nodup_ended : (ledger.ended.map Prod.fst).Nodup
  /-- For each job that was run there is one reply: it was handed over or some worker holds it. -/
  replies : (ledger.handed ++ pool.workers.filterMap Worker.held?).Perm
    (ledger.ended.map fun (task, outcome) => (task.ticket, outcome.reply))
  nodup_handed : (ledger.handed.map Prod.fst).Nodup
  /-- A reply under a ticket is what the job of that ticket replied, or tells why it crashed. -/
  own : ∀ ticket reply, (ticket, reply) ∈ ledger.handed → ∃ task outcome,
    (task, outcome) ∈ ledger.ended ∧ task.ticket = ticket ∧
      match outcome with
      | .replied answer => reply = answer
      | .crashed crash => reply.text = "ERR;(Exception) " ++ crash.sentence
  /-- Whoever still waits for a ticket has the reply once it was handed over, and no other. -/
  served : ∀ ticket reply, (ticket, reply) ∈ ledger.handed → ticket ∉ ledger.abandoned →
    pool.fate ticket = .answered reply
  waiting : ∀ ticket, ticket < pool.fates.size → ticket ∉ ledger.handed.map Prod.fst →
    ticket ∉ ledger.abandoned → pool.fate ticket = .pending
  answered : ∀ ticket reply, pool.fate ticket = .answered reply → (ticket, reply) ∈ ledger.handed
  /-- As long as fewer jobs run than there are workers, the next one can be started. -/
  serves : ∀ task queue, pool.queue = task :: queue → pool.runningTasks.length < max width 1 →
    ∃ worker started,
      (pool.start? worker = some started ∨
        ∃ delivered, pool.deliver? worker = some delivered ∧
          delivered.start? worker = some started) ∧
      started.running? worker = some task ∧ started.queue = queue
  /-- Later submissions do not put off a job: workers cannot make many moves without it. -/
  prompt : ∀ task ∈ ledger.submitted, 3 * task.ticket < moves.countP Move.isWorkers →
    task ∈ ledger.started
  bounded : moves.countP Move.isWorkers ≤ 3 * ledger.submitted.length
  /-- Where workers can move no more, all jobs were run and all replies handed over. -/
  complete : (∀ move : Move J, move.isWorkers = true → pool.move? move = none) →
    (ledger.ended.map Prod.fst).Perm ledger.submitted ∧
      ledger.handed.Perm (ledger.ended.map fun (task, outcome) => (task.ticket, outcome.reply))

/-- The protocol of the pool is kept by whatever its clients and workers do, in whatever order.

Proof: the ledger and the pool agree at the start, and every move keeps what they have in common.
That every job has one place and every run one reply carries the counting of replies; the order
of jobs is that of the queue. -/
theorem protocol_of_moves {width : Nat} {moves : List (Move J)} {pool : Pool J}
    (ran : (Pool.ofWidth width).moves? moves = some pool) :
    Protocol width moves ((Pool.ofWidth width).ledger moves) pool := by
  have agrees : ((Pool.ofWidth width).ledger moves).Agrees pool width :=
    (Ledger.Agrees.ofWidth width).moves ran
  have counted : ((Pool.ofWidth width).ledger moves).count = moves.countP Move.isWorkers :=
    (Ledger.count_ledgerFrom ran).trans (Nat.zero_add _)
  generalize (Pool.ofWidth width).ledger moves = ledger at agrees counted
  have replies : (ledger.handed ++ pool.workers.filterMap Worker.held?).Perm
      (ledger.ended.map fun (task, outcome) => (task.ticket, outcome.reply)) := by
    simpa [Ledger.executions, Function.comp_def] using agrees.held
  have once := agrees.perm_started
  -- The bound is a sum: what was started, what has ended and what was handed over are counted.
  have fewerHanded := replies.length_eq
  have fewerEnded := once.length_eq
  have fewerStarted := congrArg List.length agrees.order
  simp only [List.length_append, List.length_map] at fewerHanded fewerEnded fewerStarted
  rw [Ledger.count] at counted
  have distinct := agrees.nodup_handed
  rw [List.map_append] at distinct
  refine
    { accepts := fun job => ?_
      tickets := agrees.custody.tickets
      staff := agrees.staff
      running_le := ?_
      order := agrees.order
      once
      nodup_ended := ?_
      replies
      nodup_handed := (List.nodup_append.mp distinct).1
      own := fun ticket reply handed => ?_
      served := agrees.served
      waiting := agrees.waiting
      answered := agrees.answered
      serves := fun task queue waits free => Pool.exists_start waits (agrees.staff ▸ free)
      prompt := fun task member late => ?_
      bounded := by omega
      complete := fun stuck => ?_ }
  · simp [Pool.submit?, agrees.custody.accepting]
  · rw [← agrees.staff]
    exact List.length_filterMap_le _ _
  · have tickets := agrees.custody.nodup_executed
    rw [Ledger.executions, List.map_map] at tickets
    refine List.Nodup.of_map Task.ticket ?_
    rwa [List.map_map]
  · obtain ⟨⟨task, outcome⟩, ended, same⟩ :=
      List.mem_map.mp (replies.mem_iff.mp (List.mem_append_left _ handed))
    obtain ⟨rfl, rfl⟩ := Prod.mk.inj same
    refine ⟨task, outcome, ended, rfl, ?_⟩
    cases outcome with
    | replied answer => rfl
    | crashed crash => exact Outcome.text_reply_crashed crash
  · -- A ticket is a place among the submissions, and what was started comes first there.
    obtain ⟨place, stands⟩ := List.mem_iff_getElem?.mp member
    have ticket := congrArg (·[place]?) agrees.custody.tickets
    simp only [List.getElem?_map, stands, Option.map_some] at ticket
    obtain ⟨_, named⟩ := List.getElem?_eq_some_iff.mp ticket.symm
    rw [List.getElem_range] at named
    rw [← agrees.order, List.getElem?_append_left (by omega)] at stands
    exact List.mem_of_getElem? stands
  · -- Where no worker can go on, nothing waits, runs or is held.
    obtain ⟨empty, idle⟩ := Pool.exhausted agrees.custody.staffed stuck
    have nobody : pool.runningTasks = [] :=
      List.filterMap_eq_nil_iff.mpr fun worker member => idle worker member ▸ rfl
    have nothing : pool.workers.filterMap Worker.held? = [] :=
      List.filterMap_eq_nil_iff.mpr fun worker member => idle worker member ▸ rfl
    have all := agrees.order
    rw [empty, List.append_nil] at all
    rw [nobody, List.append_nil, all] at once
    rw [nothing, List.append_nil] at replies
    exact ⟨once, replies⟩

/-- Three jobs on two workers: the first ticket is given up, the second job crashes, and both jobs
are started in a turn that is not that of the workers. -/
def contested : List (Move String) :=
  [.submit "first", .submit "second", .start 1, .submit "third", .abandon 0, .start 0,
    .finish 0 (.crashed (.explained "boom")), .deliver 0]

/-- The protocol where a job crashed and a ticket was given up: the crash is told to the ticket of
its own job, and the third job can be started. -/
theorem protocol_of_moves_contested :
    ∃ pool, (Pool.ofWidth 2).moves? contested = some pool ∧
      Protocol 2 contested ((Pool.ofWidth 2).ledger contested) pool ∧
      pool.queue = [⟨2, "third"⟩] ∧
      pool.fate 1 = .answered (Outcome.crashed (.explained "boom")).reply := by
  refine ⟨_, rfl, protocol_of_moves rfl, rfl, rfl⟩

end ParamSweep
