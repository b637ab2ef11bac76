import ParamSweep.Proofs.Service.Closing
import ParamSweep.Proofs.Service.Progress
import ParamSweep.Proofs.Service.Sequential

/-!
# What keeps items and jobs in order

A reader runs ahead of the workers by any number of items. Still a single worker runs the jobs in
the order in which their items were taken: it is the queue that keeps it. Where no session is read
before those in front of it are over, the items are taken in the order of the sessions.

A job that runs finds the times that the jobs before it left, and nothing else of the service
matters to it. So the jobs that were run, in their order, are replayed by a sequential service.
-/

namespace ParamSweep

/-- The time that the job of an action took. -/
def Action.elapsed? : Action → Option Duration
  | .execute _ elapsed => some elapsed
  | _ => none

/-- The times that the jobs of a run took. -/
def Action.clock (actions : List Action) (job : Nat) : Duration :=
  (actions.filterMap elapsed?).getD job .zero

/-- The items that a connection brings in. -/
def Intake.inbound (intake : Intake) : List Inbound := intake.items.map (·.2)

namespace Service

/-- Whether an action keeps to the turn of the sessions: the pool is not stopped, and a session is
not read before those in front of it are over. -/
def isTurn (service : Service) : Action → Bool
  | .read position => (service.sessions.toList.take position).all Session.isOver
  | .stop => false
  | .write _ | .start _ | .execute _ _ | .deliver _ => true

/-- The service after an action that is possible and keeps to the turn. -/
def stepInTurn? (service : Service) (action : Action) : Option Service :=
  if service.isTurn action then service.step? action else none

/-- The service after a run of such actions. -/
def runInTurn? (service : Service) (actions : List Action) : Option Service :=
  actions.foldlM stepInTurn? service

/-- A service with one worker and some connections whose writers manage every reply. -/
def ofIntakes (intakes : List Intake) : Service :=
  { pool := .ofWidth 1, sessions := (intakes.map (Session.ofIntake · none)).toArray }

end Service

section

variable {J : Type}

/-- A pool with one worker that runs jobs in the order of their submission. -/
structure Pool.InOrder (pool : Pool J) (submissions : List (Task J))
    (executions : List (Execution J)) : Prop where
  staff : pool.workers.length = 1
  order : executions.map Execution.task ++ pool.runningTasks ++ pool.queue = submissions

namespace Pool.InOrder

variable {pool after : Pool J} {submissions : List (Task J)} {executions : List (Execution J)}

/-- What the only worker is doing. -/
theorem eq_singleton (inOrder : pool.InOrder submissions executions) {worker : Nat}
    {state : Worker J} (stands : pool.workers[worker]? = some state) :
    worker = 0 ∧ pool.workers = [state] := by
  obtain ⟨only, same⟩ := List.length_eq_one_iff.mp inOrder.staff
  rw [same] at stands ⊢
  cases worker with
  | zero =>
    obtain rfl : only = state := Option.some.inj stands
    exact ⟨rfl, rfl⟩
  | succ worker => cases stands

/-- At the start nothing was submitted and nothing run. -/
theorem ofWidth : (Pool.ofWidth 1 : Pool J).InOrder [] [] := ⟨rfl, rfl⟩

/-- Jobs that are submitted wait behind all others. -/
theorem submit (inOrder : pool.InOrder submissions executions) {more : List (Task J)}
    (workers : after.workers = pool.workers) (queue : after.queue = pool.queue ++ more) :
    after.InOrder (submissions ++ more) executions := by
  refine ⟨?_, ?_⟩
  · rw [workers, inOrder.staff]
  · rw [runningTasks, workers, queue, ← List.append_assoc]
    exact congrArg (· ++ more) inOrder.order

/-- The only worker takes the first job that waits. -/
theorem start (inOrder : pool.InOrder submissions executions) {worker : Nat}
    (started : pool.start? worker = some after) : after.InOrder submissions executions := by
  obtain ⟨task, queue, idle, waiting, rfl⟩ := Pool.start?_eq_some started
  obtain ⟨rfl, only⟩ := inOrder.eq_singleton idle
  refine ⟨by rw [List.length_set, inOrder.staff], ?_⟩
  have before := inOrder.order
  simp only [runningTasks, only, waiting] at before ⊢
  simpa [List.filterMap_cons, Worker.task?] using before

/-- The job that ends is the one that was started last. -/
theorem finish (inOrder : pool.InOrder submissions executions) {worker : Nat} {task : Task J}
    (runs : pool.running? worker = some task) {outcome : Outcome}
    (finished : pool.finish? worker outcome = some after) :
    after.InOrder submissions (executions ++ [⟨task.ticket, task.job, outcome.reply⟩]) := by
  have stands := Pool.running?_eq_some runs
  obtain rfl := Pool.finish?_eq_some runs finished
  obtain ⟨rfl, only⟩ := inOrder.eq_singleton stands
  refine ⟨by rw [List.length_set, inOrder.staff], ?_⟩
  have before := inOrder.order
  simp only [runningTasks, only] at before ⊢
  simpa [List.filterMap_cons, Worker.task?, Execution.task] using before

/-- Handing over a reply changes no order. -/
theorem deliver (inOrder : pool.InOrder submissions executions) {worker : Nat}
    (delivered : pool.deliver? worker = some after) : after.InOrder submissions executions := by
  obtain ⟨ticket, reply, stands, rfl⟩ := Pool.deliver?_eq_some delivered
  obtain ⟨rfl, only⟩ := inOrder.eq_singleton stands
  refine ⟨by rw [settle, List.length_set, inOrder.staff], ?_⟩
  have before := inOrder.order
  simp only [runningTasks, only, settle] at before ⊢
  simpa [List.filterMap_cons, Worker.task?] using before

end Pool.InOrder

end

/-- Whoever gives up waiting leaves workers and queue alone. -/
theorem Slot.pool_loseAll (slots : List Slot) (pool : Pool Job) :
    (slots.foldl Slot.lose pool).workers = pool.workers ∧
      (slots.foldl Slot.lose pool).queue = pool.queue := by
  induction slots generalizing pool with
  | nil => exact ⟨rfl, rfl⟩
  | cons slot slots inductionHypothesis =>
    rw [List.foldl_cons, (inductionHypothesis _).1, (inductionHypothesis _).2]
    cases slot <;> exact ⟨rfl, rfl⟩

/-- An item that is a job puts it behind all others. -/
theorem Session.pool_slotFor {pool after : Pool Job} {item : Inbound} {slot : Slot}
    {closed : Option CloseReason} (accepting : pool.accepting = true)
    (given : slotFor pool item = (slot, closed, after)) (position : Nat) :
    after.workers = pool.workers ∧
      after.queue = pool.queue ++ (Reception.task? ⟨position, item, slot⟩).toList := by
  obtain ⟨reply, known, rfl, rfl, rfl⟩ | ⟨reply, known, rfl, rfl, rfl⟩ |
    ⟨job, ticket, known, rfl, rfl, submitted⟩ | ⟨job, -, stopped, -⟩ := slotFor_cases given
  · simp [Reception.task?, known]
  · simp [Reception.task?, known]
  · obtain ⟨rfl, rfl⟩ := Pool.submit?_eq_some submitted
    simp [Reception.task?, known]
  · cases stopped.symm.trans accepting

namespace Service

/-- What reading comes to: the reader finds that there is nothing more, or takes an item. -/
theorem read_cases {service after : Service} {position : Nat}
    (possible : service.step? (.read position) = some after) :
    after.timings = service.timings ∧
      (service.reception? (.read position) = none ∧ after.pool = service.pool ∨
        ∃ item slot closed between, ∃ slots : List Slot,
          Session.slotFor service.pool item = (slot, closed, between) ∧
          service.reception? (.read position) = some ⟨position, item, slot⟩ ∧
          after.pool = slots.foldl Slot.lose between) := by
  obtain ⟨session, next, pool, stands, stepped, rfl⟩ := stepSession?_eq_some possible
  obtain ⟨reading, changed⟩ := Session.read?_eq_some stepped
  refine ⟨rfl, ?_⟩
  obtain ⟨nothing, -, rfl⟩ | ⟨item, incoming, slot, closed, between, items, given, changed⟩ :=
    changed
  · exact .inl ⟨by simp [reception?, stands, reading, nothing], rfl⟩
  · have taken : service.reception? (.read position) = some ⟨position, item, slot⟩ := by
      simp [reception?, stands, reading, items, given]
    obtain ⟨-, -, rfl⟩ | ⟨-, -, rfl⟩ := changed
    · exact .inr ⟨item, slot, closed, between, [slot], given, taken, rfl⟩
    · exact .inr ⟨item, slot, closed, pool, [], given, taken, rfl⟩

/-- What writing comes to. -/
theorem write_cases {service after : Service} {position : Nat}
    (possible : service.step? (.write position) = some after) :
    after.timings = service.timings ∧
      ∃ slots : List Slot, after.pool = slots.foldl Slot.lose service.pool := by
  obtain ⟨session, next, pool, stands, stepped, rfl⟩ := stepSession?_eq_some possible
  obtain ⟨slot, slots, reply, -, -, ⟨-, rfl, rfl⟩ | ⟨-, rfl, rfl⟩⟩ :=
    Session.write?_eq_some stepped
  · exact ⟨rfl, [], rfl⟩
  · exact ⟨rfl, session.slots, rfl⟩

/-- With one worker, jobs are run in the order in which their items were taken. -/
theorem Sound.inOrder_step {first service after : Service} {history : History} {action : Action}
    (sound : Sound first service history)
    (inOrder : service.pool.InOrder history.submissions history.executions)
    (possible : service.step? action = some after) (live : action ≠ .stop) :
    after.pool.InOrder (history.after service action).submissions
      (history.after service action).executions := by
  have unmoved {pool : Pool Job} (workers : pool.workers = service.pool.workers)
      (queue : pool.queue = service.pool.queue) :
      pool.InOrder history.submissions history.executions := by
    have same : pool.InOrder (history.submissions ++ []) history.executions :=
      inOrder.submit workers (by rw [queue, List.append_nil])
    rwa [List.append_nil] at same
  cases action with
  | read position =>
    obtain ⟨-, ⟨nothing, same⟩ | ⟨item, slot, closed, between, slots, given, taken, same⟩⟩ :=
      read_cases possible
    · simpa [History.after, nothing, execution?] using
        unmoved (by rw [same]) (by rw [same])
    · have more := Session.pool_slotFor sound.custody.accepting given position
      have lost := Slot.pool_loseAll slots between
      have moved : after.pool.InOrder (history.submissions ++
          (Reception.task? ⟨position, item, slot⟩).toList) history.executions :=
        inOrder.submit (by rw [same, lost.1, more.1]) (by rw [same, lost.2, more.2])
      rw [← history.filterMap_task?_concat] at moved
      simpa [History.after, taken, execution?, History.submissions] using moved
  | write position =>
    obtain ⟨-, slots, same⟩ := write_cases possible
    have lost := Slot.pool_loseAll slots service.pool
    have kept : after.pool.InOrder history.submissions history.executions :=
      unmoved (by rw [same, lost.1]) (by rw [same, lost.2])
    simpa [History.after, reception?, execution?, History.submissions] using kept
  | start worker =>
    obtain ⟨pool, started, rfl⟩ := Option.map_eq_some_iff.mp possible
    have kept := inOrder.start started
    simpa [History.after, reception?, execution?, History.submissions] using kept
  | execute worker elapsed =>
    obtain ⟨task, pool, runs, finished, rfl⟩ := execute?_eq_some possible
    have kept := inOrder.finish runs finished
    simpa [History.after, reception?, execution?, runs, History.submissions] using kept
  | deliver worker =>
    obtain ⟨pool, delivered, rfl⟩ := Option.map_eq_some_iff.mp possible
    have kept := inOrder.deliver delivered
    simpa [History.after, reception?, execution?, History.submissions] using kept
  | stop => exact absurd rfl live

/-- A session that is closed stays closed. -/
theorem closed_of_step {service after : Service} {action : Action}
    (possible : service.step? action = some after) {position : Nat} {session : Session}
    (stands : after.sessions[position]? = some session) :
    ∃ before, service.sessions[position]? = some before ∧
      (before.closed.isSome = true → session.closed.isSome = true) := by
  obtain ⟨before, known, rfl | moves⟩ := session_of_step possible stands
  · exact ⟨session, known, id⟩
  · exact ⟨before, known, moves.isSome_closed⟩

/-- What is taken, is taken from a session that is not closed. -/
theorem reception?_eq_some {service : Service} {action : Action} {reception : Reception}
    (taken : service.reception? action = some reception) :
    action = .read reception.session ∧ ∃ session,
      service.sessions[reception.session]? = some session ∧ session.closed = none := by
  cases action with
  | read position =>
    obtain ⟨session, stands, found⟩ := Option.bind_eq_some_iff.mp taken
    split at found
    next reading items =>
      cases found
      exact ⟨rfl, session, stands, reading⟩
    next => cases found
  | write position => cases taken
  | start worker => cases taken
  | execute worker elapsed => cases taken
  | deliver worker => cases taken
  | stop => cases taken

/-- What holds along a run on one worker. -/
structure InLine (first service : Service) (history : History) : Prop where
  sound : Sound first service history
  inOrder : service.pool.InOrder history.submissions history.executions
  inside : ∀ reception ∈ history.receptions, reception.session < first.sessions.size

/-- An action keeps what holds along a run on one worker. -/
theorem InLine.step {first service after : Service} {history : History} {action : Action}
    (inLine : InLine first service history) (possible : service.step? action = some after)
    (live : action ≠ .stop) : InLine first after (history.after service action) := by
  refine ⟨inLine.sound.step possible live, inLine.sound.inOrder_step inLine.inOrder possible live,
    fun reception member => ?_⟩
  obtain old | new := List.mem_append.mp member
  · exact inLine.inside reception old
  · obtain ⟨-, session, stands, -⟩ := reception?_eq_some (Option.mem_toList.mp new)
    rw [← inLine.sound.size]
    exact (Array.getElem?_eq_some_iff.mp stands).1

/-- So does a run. -/
theorem InLine.run {first service after : Service} {history : History} {actions : List Action}
    (inLine : InLine first service history) (ran : service.run? actions = some after)
    (live : .stop ∉ actions) : InLine first after (service.historyFrom history actions) := by
  induction actions generalizing service history with
  | nil =>
    obtain rfl := Option.some.inj ran
    exact inLine
  | cons action actions inductionHypothesis =>
    obtain ⟨next, possible, others⟩ := Option.bind_eq_some_iff.mp ran
    obtain ⟨notStop, liveOthers⟩ := not_or.mp (mt List.mem_cons.mpr live)
    rw [historyFrom, possible]
    exact inductionHypothesis (inLine.step possible (Ne.symm notStop)) others liveOthers

/-- Items are taken in the order of the sessions. -/
structure Turns (service : Service) (history : History) : Prop where
  sorted : history.receptions.Pairwise fun one other => one.session ≤ other.session
  closed : ∀ reception ∈ history.receptions, ∀ earlier < reception.session, ∀ session,
    service.sessions[earlier]? = some session → session.closed.isSome = true

/-- As long as nothing was taken, nothing was taken out of turn. -/
theorem turns_nil (service : Service) : service.Turns {} := ⟨.nil, nofun⟩

/-- An action that keeps to the turn takes no item in front of others. -/
theorem Turns.step {service after : Service} {history : History} {action : Action}
    (turns : service.Turns history) (turn : service.isTurn action = true)
    (possible : service.step? action = some after) :
    after.Turns (history.after service action) := by
  have kept {position : Nat} (closed : ∀ session, service.sessions[position]? = some session →
      session.closed.isSome = true) (session : Session)
      (stands : after.sessions[position]? = some session) : session.closed.isSome = true := by
    obtain ⟨before, known, stays⟩ := closed_of_step possible stands
    exact stays (closed before known)
  constructor
  · refine List.pairwise_append.mpr ⟨turns.sorted, ?_, ?_⟩
    · cases service.reception? action <;> simp
    · intro old member new taken
      obtain ⟨-, session, stands, reading⟩ := reception?_eq_some (Option.mem_toList.mp taken)
      by_contra behind
      have closed := turns.closed old member new.session (Nat.lt_of_not_le behind) session stands
      simp [reading] at closed
  · intro reception member earlier inFront
    obtain old | new := List.mem_append.mp member
    · exact kept (turns.closed reception old earlier inFront)
    · obtain ⟨rfl, -⟩ := reception?_eq_some (Option.mem_toList.mp new)
      refine kept fun session stands => ?_
      have place : (service.sessions.toList.take reception.session)[earlier]? = some session := by
        rw [List.getElem?_take_of_lt inFront, Array.getElem?_toList, stands]
      have ended := List.all_eq_true.mp turn session (List.mem_of_getElem? place)
      exact (Bool.and_eq_true_iff.mp ended).1

/-- What an action does to the recorded times: it runs a job on them, or leaves them alone. -/
theorem execution_cases {service after : Service} {action : Action}
    (possible : service.step? action = some after) :
    (action.elapsed? = none ∧ service.execution? action = none ∧
        after.timings = service.timings) ∨
      ∃ time ticket job, action.elapsed? = some time ∧
        service.execution? action = some ⟨ticket, job, (job.run time service.timings).1.reply⟩ ∧
        after.timings = (job.run time service.timings).2 := by
  cases action with
  | read place =>
    exact .inl ⟨rfl, rfl, (read_cases possible).1⟩
  | write place =>
    exact .inl ⟨rfl, rfl, (write_cases possible).1⟩
  | start worker =>
    obtain ⟨pool, -, rfl⟩ := Option.map_eq_some_iff.mp possible
    exact .inl ⟨rfl, rfl, rfl⟩
  | execute worker elapsed =>
    obtain ⟨task, pool, runs, -, rfl⟩ := execute?_eq_some possible
    exact .inr ⟨elapsed, task.ticket, task.job, rfl, by rw [execution?, runs]; rfl, rfl⟩
  | deliver worker =>
    obtain ⟨pool, -, rfl⟩ := Option.map_eq_some_iff.mp possible
    exact .inl ⟨rfl, rfl, rfl⟩
  | stop =>
    obtain ⟨pool, -, rfl⟩ := Option.map_eq_some_iff.mp possible
    exact .inl ⟨rfl, rfl, rfl⟩

end Service

namespace Sequential

/-- A sequential service comes from one state to another by running the jobs that were run, and
its replies are theirs. -/
inductive Replays (elapsed : Nat → Duration) :
    Sequential → List (Execution Job) → Sequential → Prop
  | nil (state : Sequential) : Replays elapsed state [] state
  | cons {state final : Sequential} {execution : Execution Job}
      {executions : List (Execution Job)}
      (reply : execution.reply = (state.run elapsed execution.job).1)
      (others : Replays elapsed (state.run elapsed execution.job).2 executions final) :
      Replays elapsed state (execution :: executions) final

namespace Replays

variable {elapsed : Nat → Duration} {state final : Sequential}

/-- One more job is run at the end. -/
theorem concat {executions : List (Execution Job)}
    (replays : Replays elapsed state executions final) (execution : Execution Job)
    (reply : execution.reply = (final.run elapsed execution.job).1) :
    Replays elapsed state (executions ++ [execution]) (final.run elapsed execution.job).2 := by
  induction replays with
  | nil state => exact .cons reply (.nil _)
  | cons earlier _ inductionHypothesis => exact .cons earlier (inductionHypothesis reply)

/-- The workers of a service run jobs on the recorded times as a sequential service does, however
many workers there are. -/
theorem run {start : Sequential} {service after : Service} {history : History}
    {actions : List Action} (ran : service.run? actions = some after)
    (clock : ∀ job time, (actions.filterMap Action.elapsed?)[job]? = some time →
      elapsed (history.executions.length + job) = time)
    (replays : Replays elapsed start history.executions
      ⟨service.timings, history.executions.length⟩) :
    Replays elapsed start (service.historyFrom history actions).executions
      ⟨after.timings, (service.historyFrom history actions).executions.length⟩ := by
  induction actions generalizing service history with
  | nil =>
    obtain rfl := Option.some.inj ran
    exact replays
  | cons action actions inductionHypothesis =>
    obtain ⟨next, stepped, others⟩ := Option.bind_eq_some_iff.mp ran
    rw [Service.historyFrom, stepped]
    obtain ⟨still, nothing, timings⟩ | ⟨time, ticket, job, took, ran, timings⟩ :=
      Service.execution_cases stepped
    · have same : (history.after service action).executions = history.executions := by
        rw [History.after, nothing]
        exact List.append_nil _
      rw [List.filterMap_cons_none still] at clock
      apply inductionHypothesis others
      · rwa [same]
      · rwa [same, timings]
    · have more : (history.after service action).executions = history.executions ++
          [⟨ticket, job, (job.run time service.timings).1.reply⟩] := by
        rw [History.after, ran]
        rfl
      rw [List.filterMap_cons_some took] at clock
      have now : elapsed history.executions.length = time := clock 0 time rfl
      apply inductionHypothesis others
      · intro later found behind
        rw [more, List.length_append, List.length_singleton, Nat.add_assoc, Nat.add_comm 1]
        exact clock (later + 1) found behind
      · rw [more, timings, List.length_append, List.length_singleton]
        have longer := replays.concat ⟨ticket, job, (job.run time service.timings).1.reply⟩
          (by rw [Sequential.run, now])
        rwa [Sequential.run, now] at longer

/-- A replay of some jobs and then of others. -/
theorem exists_middle {executions others : List (Execution Job)}
    (replays : Replays elapsed state (executions ++ others) final) :
    ∃ middle, Replays elapsed state executions middle ∧ Replays elapsed middle others final := by
  induction executions generalizing state with
  | nil => exact ⟨state, .nil state, replays⟩
  | cons execution executions inductionHypothesis =>
    cases replays with
    | cons reply rest =>
      obtain ⟨middle, first, second⟩ := inductionHypothesis rest
      exact ⟨middle, .cons reply first, second⟩

/-- Items whose jobs were run in their order have the replies of a sequential service.

Proof: by induction on the items. A reply that does not come from a job is that of the item. A
job that was taken is the next that was run, and since no ticket is given out twice its reply is
the one under the ticket. -/
theorem answerAll {all executions : List (Execution Job)} {receptions : List Reception}
    {replies : List Reply} (distinct : (all.map Execution.ticket).Nodup)
    (part : executions ⊆ all) (replays : Replays elapsed state executions final)
    (answers : List.Forall₂ (Answers all) receptions replies)
    (order : executions.map Execution.task = receptions.filterMap Reception.task?) :
    state.answerAll elapsed (receptions.map Reception.item) =
      ((receptions.map Reception.item).zip replies, final) := by
  induction answers generalizing state executions with
  | nil =>
    obtain rfl := List.map_eq_nil_iff.mp order
    cases replays
    rfl
  | @cons reception reply receptions replies answer _ inductionHypothesis =>
    have atOnce (none : reception.task? = none)
        (same : state.answer elapsed reception.item = (reply, state)) :
        state.answerAll elapsed ((reception :: receptions).map Reception.item) =
          (((reception :: receptions).map Reception.item).zip (reply :: replies), final) := by
      rw [List.filterMap_cons_none none] at order
      rw [List.map_cons, Sequential.answerAll, same]
      simp only [inductionHypothesis part replays order, List.zip_cons_cons]
    cases answer with
    | reply known =>
      exact atOnce (by simp only [Reception.task?, known])
        (by simp only [answer, known])
    | quit known =>
      exact atOnce (by simp only [Reception.task?, known])
        (by simp only [answer, known])
    | @job session item job ticket reply submitted ran =>
      have task : Reception.task? ⟨session, item, .awaiting ticket⟩ = some ⟨ticket, job⟩ := by
        simp only [Reception.task?, submitted]
      rw [List.filterMap_cons_some task] at order
      obtain ⟨execution, others, rfl, same, rest⟩ := List.map_eq_cons_iff.mp order
      obtain ⟨here, behind⟩ := List.cons_subset.mp part
      obtain rfl : execution = ⟨ticket, job, reply⟩ :=
        List.inj_on_of_nodup_map distinct here ran (congrArg Task.ticket same)
      cases replays with
      | cons replied replays =>
        have first : state.answer elapsed item = state.run elapsed job := by
          simp only [answer, submitted]
        rw [List.map_cons, Sequential.answerAll, first]
        simp only [inductionHypothesis behind replays rest, List.zip_cons_cons]
        rw [← replied]

end Replays

end Sequential

/-- The jobs of a run are replayed by a sequential service that starts with the times recorded
before, and whose jobs take the times that they took. -/
theorem Service.replays_of_run {service after : Service} {actions : List Action}
    (ran : service.run? actions = some after) :
    Sequential.Replays (Action.clock actions) ⟨service.timings, 0⟩
      (service.history actions).executions
      ⟨after.timings, (service.history actions).executions.length⟩ := by
  refine .run ran ?_ (.nil _)
  intro job time took
  simp [Action.clock, took]

end ParamSweep
