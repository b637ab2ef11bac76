import Mathlib.Data.List.Perm.Basic
import ParamSweep.Service.Pool

/-!
# Where the jobs of a pool are

A job that was submitted is in exactly one place: it waits in the queue, a worker is running it,
or it has been run. Its ticket is the number of jobs submitted before it. Once a job has been
run, its reply is held by the worker until the ticket is answered with it; so an answer under a
ticket is always the reply of the one run of the job with that ticket.

This is kept by every step of a pool that does not stop, and also when somebody gives up waiting
for a ticket. Which worker takes a job, and in which order jobs end, plays no part in it.
-/

namespace ParamSweep

/-- One run of a job, and the reply it came to. -/
structure Execution (J : Type) where
  ticket : Nat
  job : J
  reply : Reply

variable {J : Type}

/-- What was run. -/
def Execution.task (execution : Execution J) : Task J := ⟨execution.ticket, execution.job⟩

/-- The task a worker is running. -/
def Worker.task? : Worker J → Option (Task J)
  | .running task => some task
  | _ => none

/-- Only a pending ticket gets its verdict. -/
theorem Fate.eq_of_settle {verdict fate settled : Fate}
    (same : verdict.settle fate = settled) :
    fate = .pending ∧ settled = verdict ∨ fate ≠ .pending ∧ fate = settled := by
  cases fate with
  | pending => exact .inl ⟨rfl, same.symm⟩
  | answered reply => exact .inr ⟨nofun, same⟩
  | dropped => exact .inr ⟨nofun, same⟩
  | abandoned => exact .inr ⟨nofun, same⟩

/-- When one member of a list changes, what is read off it makes room for what is read off the
new one. -/
theorem perm_filterMap_set {α β : Type} (read : α → Option β) {items : List α} {position : Nat}
    {old : α} (stands : items[position]? = some old) (new : α) :
    ((read old).toList ++ (items.set position new).filterMap read).Perm
      ((read new).toList ++ items.filterMap read) := by
  have cons (item : α) (rest : List α) :
      (item :: rest).filterMap read = (read item).toList ++ rest.filterMap read := by
    cases found : read item <;> simp [found]
  induction items generalizing position with
  | nil => cases stands
  | cons first items inductionHypothesis =>
    cases position with
    | zero =>
      obtain rfl : first = old := Option.some.inj stands
      simp only [List.set_cons_zero, cons]
      exact List.perm_append_comm_assoc _ _ _
    | succ position =>
      have others := inductionHypothesis stands
      simp only [List.set_cons_succ, cons]
      exact (List.perm_append_comm_assoc _ _ _).trans
        ((others.append_left _).trans (List.perm_append_comm_assoc _ _ _))

namespace Pool

/-- The tasks that are being run. -/
def runningTasks (pool : Pool J) : List (Task J) := pool.workers.filterMap Worker.task?

/-- Idle workers run nothing. -/
theorem runningTasks_eq_nil {pool : Pool J}
    (idle : ∀ worker ∈ pool.workers, worker.isIdle = true) : pool.runningTasks = [] := by
  apply List.filterMap_eq_nil_iff.mpr
  intro worker member
  have free := idle worker member
  cases worker with
  | idle => rfl
  | running task => cases free
  | finished ticket reply => rfl

/-- Settling a ticket gives out no new one. -/
@[simp] theorem size_fates_settle (pool : Pool J) (verdict : Fate) (ticket : Nat) :
    (pool.settle verdict ticket).fates.size = pool.fates.size := by
  simp [settle]

/-- Settling a ticket changes the fate of no other. -/
theorem fate_settle (pool : Pool J) (verdict : Fate) (ticket other : Nat) :
    (pool.settle verdict ticket).fate other =
      if ticket = other then verdict.settle (pool.fate other) else pool.fate other := by
  by_cases same : ticket = other
  · subst same
    simp only [fate, settle, Array.getD_eq_getD_getElem?, Array.getElem?_modify, if_true]
    cases pool.fates[ticket]? <;> rfl
  · simp [fate, settle, Array.getD_eq_getD_getElem?, Array.getElem?_modify, same]

/-- A worker becomes idle and settles a ticket. -/
theorem fate_deliver (pool : Pool J) (workers : List (Worker J)) (verdict : Fate)
    (ticket other : Nat) :
    (settle { pool with workers } verdict ticket).fate other =
      if ticket = other then verdict.settle (pool.fate other) else pool.fate other :=
  fate_settle { pool with workers } verdict ticket other

/-- Nor does abandoning one. -/
theorem fate_abandon (pool : Pool J) (ticket other : Nat) :
    (pool.abandon ticket).fate other =
      if ticket = other then .abandoned else pool.fate other := by
  by_cases same : ticket = other
  · subst same
    simp only [fate, abandon, Array.getD_eq_getD_getElem?, Array.getElem?_modify, if_true]
    cases pool.fates[ticket]? <;> rfl
  · simp [fate, abandon, Array.getD_eq_getD_getElem?, Array.getElem?_modify, same]

/-- The next ticket is pending, and all others are what they were. -/
theorem fate_push (pool : Pool J) (queue : List (Task J)) (ticket : Nat) :
    fate { pool with queue, fates := pool.fates.push .pending } ticket =
      if ticket = pool.fates.size then .pending else pool.fate ticket := by
  simp only [fate, Array.getD_eq_getD_getElem?, Array.getElem?_push]
  split <;> rfl

/-- A pool does not lose its workers when one of them changes. -/
theorem set_ne_nil {workers : List (Worker J)} (staffed : workers ≠ []) (position : Nat)
    (worker : Worker J) : workers.set position worker ≠ [] := by
  simpa [List.set_eq_nil_iff] using staffed

/-- The other workers stay when one changes. -/
theorem mem_set_of_ne {workers : List (Worker J)} {position : Nat} {old worker : Worker J}
    (stands : workers[position]? = some old) (member : worker ∈ workers) (other : worker ≠ old)
    (new : Worker J) : worker ∈ workers.set position new := by
  obtain ⟨place, found⟩ := List.mem_iff_getElem?.mp member
  have apart : position ≠ place := by
    rintro rfl
    exact other (Option.some.inj (found.symm.trans stands))
  exact List.mem_iff_getElem?.mpr ⟨place, by rw [List.getElem?_set_ne apart, found]⟩

/-- What it takes to submit a job, and what it changes. -/
theorem submit?_eq_some {pool after : Pool J} {job : J} {ticket : Nat}
    (submitted : pool.submit? job = some (ticket, after)) :
    ticket = pool.fates.size ∧
      after = { pool with queue := pool.queue ++ [⟨pool.fates.size, job⟩],
                          fates := pool.fates.push .pending } := by
  unfold submit? at submitted
  split at submitted
  · cases submitted
    exact ⟨rfl, rfl⟩
  · cases submitted

/-- What it takes to start a job, and what it changes. -/
theorem start?_eq_some {pool after : Pool J} {worker : Nat}
    (started : pool.start? worker = some after) :
    ∃ task queue, pool.workers[worker]? = some .idle ∧ pool.queue = task :: queue ∧
      after = { pool with workers := pool.workers.set worker (.running task), queue } := by
  unfold start? at started
  split at started
  next task queue idle waiting => exact ⟨task, queue, idle, waiting, (Option.some.inj started).symm⟩
  next => cases started

/-- A worker that runs a job stands in the pool with it. -/
theorem running?_eq_some {pool : Pool J} {worker : Nat} {task : Task J}
    (runs : pool.running? worker = some task) :
    pool.workers[worker]? = some (.running task) := by
  unfold running? at runs
  split at runs
  next stands => rw [stands, Option.some.inj runs]
  next => cases runs

/-- What it takes to end a job, and what it changes. -/
theorem finish?_eq_some {pool after : Pool J} {worker : Nat} {task : Task J} {outcome : Outcome}
    (runs : pool.running? worker = some task)
    (finished : pool.finish? worker outcome = some after) :
    after =
      { pool with workers := pool.workers.set worker (.finished task.ticket outcome.reply) } := by
  rw [finish?, runs] at finished
  exact (Option.some.inj finished).symm

/-- What it takes to hand over a reply, and what it changes. -/
theorem deliver?_eq_some {pool after : Pool J} {worker : Nat}
    (delivered : pool.deliver? worker = some after) :
    ∃ ticket reply, pool.workers[worker]? = some (.finished ticket reply) ∧
      after = settle { pool with workers := pool.workers.set worker .idle } (.answered reply)
        ticket := by
  unfold deliver? at delivered
  split at delivered
  next ticket reply stands => exact ⟨ticket, reply, stands, (Option.some.inj delivered).symm⟩
  next => cases delivered

end Pool

/-- Every submitted job is in one place, and every answer is the reply of a run. -/
structure Custody (pool : Pool J) (submissions : List (Task J)) (executions : List (Execution J)) :
    Prop where
  accepting : pool.accepting = true
  staffed : pool.workers ≠ []
  tickets : submissions.map Task.ticket = List.range pool.fates.size
  places : (executions.map Execution.task ++ pool.runningTasks ++ pool.queue).Perm submissions
  held : ∀ ticket reply, .finished ticket reply ∈ pool.workers →
    ∃ execution ∈ executions, execution.ticket = ticket ∧ execution.reply = reply
  answered : ∀ ticket reply, pool.fate ticket = .answered reply →
    ∃ execution ∈ executions, execution.ticket = ticket ∧ execution.reply = reply
  kept : ∀ ticket, pool.fate ticket ≠ .dropped
  owed : ∀ execution ∈ executions, pool.fate execution.ticket = .pending →
    .finished execution.ticket execution.reply ∈ pool.workers

namespace Custody

variable {pool after : Pool J} {submissions : List (Task J)} {executions : List (Execution J)}

/-- No ticket is given out twice. -/
theorem nodup_tickets (custody : Custody pool submissions executions) :
    (submissions.map Task.ticket).Nodup := by
  rw [custody.tickets]
  exact List.nodup_range

/-- No job is run twice. -/
theorem nodup_executed (custody : Custody pool submissions executions) :
    (executions.map Execution.ticket).Nodup := by
  have all := (custody.places.map Task.ticket).nodup_iff.mpr custody.nodup_tickets
  simp only [List.map_append, List.append_assoc, List.map_map] at all
  exact (List.nodup_append.mp all).1

/-- When every worker is idle, a job that was submitted has been run or waits. -/
theorem ran_or_waits (custody : Custody pool submissions executions)
    (idle : ∀ worker ∈ pool.workers, worker.isIdle = true) {task : Task J}
    (member : task ∈ submissions) :
    (∃ execution ∈ executions, execution.task = task) ∨ task ∈ pool.queue := by
  have place := custody.places.mem_iff.mpr member
  rw [Pool.runningTasks_eq_nil idle, List.append_nil] at place
  exact (List.mem_append.mp place).imp_left List.mem_map.mp

/-- What was run was submitted under the ticket of the run. -/
theorem task_mem (custody : Custody pool submissions executions) {execution : Execution J}
    (member : execution ∈ executions) : execution.task ∈ submissions := by
  refine custody.places.mem_iff.mp ?_
  simp only [List.mem_append, List.mem_map]
  exact .inl (.inl ⟨execution, member, rfl⟩)

/-- A fresh pool has been given nothing. -/
theorem ofWidth (width : Nat) : Custody (Pool.ofWidth width : Pool J) [] [] where
  accepting := rfl
  staffed := by
    intro nobody
    have positive : max width 1 ≠ 0 := by omega
    exact positive ((List.replicate_eq_nil_iff _).mp nobody)
  tickets := rfl
  places := by
    have nobody :
        (List.replicate (max width 1) (.idle : Worker J)).filterMap Worker.task? = [] := by
      simp [List.filterMap_eq_nil_iff, Worker.task?]
    simp [Pool.runningTasks, Pool.ofWidth, nobody]
  held := by
    intro ticket reply member
    cases (List.mem_replicate.mp member).2
  answered := by
    intro ticket reply answered
    cases answered
  kept := by
    intro ticket dropped
    cases dropped
  owed := by
    intro execution member
    cases member

/-- A job that is submitted waits under the next ticket. -/
theorem submit (custody : Custody pool submissions executions) {job : J} {ticket : Nat}
    (submitted : pool.submit? job = some (ticket, after)) :
    Custody after (submissions ++ [⟨ticket, job⟩]) executions := by
  obtain ⟨rfl, rfl⟩ := Pool.submit?_eq_some submitted
  have fates := pool.fate_push (pool.queue ++ [⟨pool.fates.size, job⟩])
  refine ⟨custody.accepting, custody.staffed, ?_, ?_, custody.held, ?_, ?_, ?_⟩
  · simp [custody.tickets, List.range_succ]
  · have places := custody.places.append_right [⟨pool.fates.size, job⟩]
    simpa [Pool.runningTasks] using places
  · intro other reply answered
    rw [fates] at answered
    split at answered
    · cases answered
    · exact custody.answered other reply answered
  · intro other dropped
    rw [fates] at dropped
    split at dropped
    · cases dropped
    · exact custody.kept other dropped
  · intro execution member pending
    have known : execution.ticket ≠ pool.fates.size := by
      have ticketMember := List.mem_map_of_mem (f := Task.ticket) (custody.task_mem member)
      rw [custody.tickets, List.mem_range] at ticketMember
      exact Nat.ne_of_lt ticketMember
    rw [fates, if_neg known] at pending
    exact custody.owed execution member pending

/-- A worker takes the job at the head of the queue. -/
theorem start (custody : Custody pool submissions executions) {worker : Nat}
    (started : pool.start? worker = some after) : Custody after submissions executions := by
  obtain ⟨task, queue, idle, waiting, rfl⟩ := Pool.start?_eq_some started
  refine ⟨custody.accepting, Pool.set_ne_nil custody.staffed _ _, custody.tickets, ?_, ?_,
    custody.answered, custody.kept, ?_⟩
  · have moved : ((pool.workers.set worker (.running task)).filterMap Worker.task?).Perm
        (task :: pool.runningTasks) := perm_filterMap_set Worker.task? idle (.running task)
    have before := custody.places
    rw [waiting] at before
    refine .trans ?_ before
    simp only [List.append_assoc]
    exact ((moved.append_right queue).trans List.perm_middle.symm).append_left _
  · intro ticket reply member
    rcases List.mem_or_eq_of_mem_set member with old | new
    · exact custody.held ticket reply old
    · cases new
  · intro execution member pending
    exact Pool.mem_set_of_ne idle (custody.owed execution member pending) nofun _

/-- A job is run, and the worker holds its reply. -/
theorem finish (custody : Custody pool submissions executions) {worker : Nat} {task : Task J}
    (runs : pool.running? worker = some task) {outcome : Outcome}
    (finished : pool.finish? worker outcome = some after) :
    Custody after submissions (executions ++ [⟨task.ticket, task.job, outcome.reply⟩]) := by
  have stands := Pool.running?_eq_some runs
  obtain rfl := Pool.finish?_eq_some runs finished
  refine ⟨custody.accepting, Pool.set_ne_nil custody.staffed _ _, custody.tickets, ?_, ?_, ?_,
    custody.kept, ?_⟩
  · have moved : (task :: (pool.workers.set worker
        (.finished task.ticket outcome.reply)).filterMap Worker.task?).Perm pool.runningTasks :=
      perm_filterMap_set Worker.task? stands (.finished task.ticket outcome.reply)
    refine .trans ?_ custody.places
    simp only [List.map_append, List.append_assoc]
    exact (moved.append_right pool.queue).append_left _
  · intro ticket reply member
    rcases List.mem_or_eq_of_mem_set member with old | new
    · obtain ⟨execution, known, same⟩ := custody.held ticket reply old
      exact ⟨execution, List.mem_append_left _ known, same⟩
    · cases new
      exact ⟨_, List.mem_append_right _ (List.mem_singleton_self _), rfl, rfl⟩
  · intro ticket reply answered
    obtain ⟨execution, known, same⟩ := custody.answered ticket reply answered
    exact ⟨execution, List.mem_append_left _ known, same⟩
  · intro execution member pending
    rcases List.mem_append.mp member with old | new
    · exact Pool.mem_set_of_ne stands (custody.owed execution old pending) nofun _
    · obtain rfl := List.mem_singleton.mp new
      have place : worker < pool.workers.length := (List.getElem?_eq_some_iff.mp stands).1
      exact List.mem_set place _

/-- A worker hands over the reply it holds. -/
theorem deliver (custody : Custody pool submissions executions) {worker : Nat}
    (delivered : pool.deliver? worker = some after) : Custody after submissions executions := by
  obtain ⟨ticket, reply, stands, rfl⟩ := Pool.deliver?_eq_some delivered
  have fates := pool.fate_deliver (pool.workers.set worker .idle) (.answered reply) ticket
  refine ⟨custody.accepting, Pool.set_ne_nil custody.staffed _ _, ?_, ?_, ?_, ?_, ?_, ?_⟩
  · rw [Pool.size_fates_settle, custody.tickets]
  · have moved : ((pool.workers.set worker .idle).filterMap Worker.task?).Perm
        pool.runningTasks := perm_filterMap_set Worker.task? stands .idle
    exact ((moved.append_left _).append_right pool.queue).trans custody.places
  · intro other held member
    rcases List.mem_or_eq_of_mem_set member with old | new
    · exact custody.held other held old
    · cases new
  · intro other answer answered
    rw [fates] at answered
    split at answered
    next same =>
      subst same
      obtain ⟨-, now⟩ | ⟨-, before⟩ := Fate.eq_of_settle answered
      · cases now
        exact custody.held ticket reply (List.mem_of_getElem? stands)
      · exact custody.answered ticket answer before
    next => exact custody.answered other answer answered
  · intro other dropped
    rw [fates] at dropped
    split at dropped
    next =>
      obtain ⟨-, now⟩ | ⟨-, before⟩ := Fate.eq_of_settle dropped
      · cases now
      · exact custody.kept other before
    next => exact custody.kept other dropped
  · intro execution member pending
    rw [fates] at pending
    split at pending
    next =>
      obtain ⟨-, now⟩ | ⟨settled, before⟩ := Fate.eq_of_settle pending
      · cases now
      · exact absurd before settled
    next apart =>
      refine Pool.mem_set_of_ne stands (custody.owed execution member pending) ?_ _
      intro same
      cases same
      exact apart rfl

/-- Somebody gives up waiting. -/
theorem abandon (custody : Custody pool submissions executions) (ticket : Nat) :
    Custody (pool.abandon ticket) submissions executions := by
  have fates := pool.fate_abandon ticket
  refine ⟨custody.accepting, custody.staffed, ?_, custody.places, custody.held, ?_, ?_, ?_⟩
  · rw [custody.tickets]
    simp [Pool.abandon]
  · intro other reply answered
    rw [fates] at answered
    split at answered
    · cases answered
    · exact custody.answered other reply answered
  · intro other dropped
    rw [fates] at dropped
    split at dropped
    · cases dropped
    · exact custody.kept other dropped
  · intro execution member pending
    rw [fates] at pending
    split at pending
    · cases pending
    · exact custody.owed execution member pending

end Custody

end ParamSweep
