import ParamSweep.Proofs.Service.Closing
import ParamSweep.Proofs.Service.Counting

/-!
# What follows when a pool stops

A pool stops for good at a moment when every worker is idle: none runs a job, and none still holds
the reply of one that has ended. By then every job that was submitted has either been run to its end
or waits in the queue, and those that wait are dropped. So at this moment the reply of every slot
that any session has queued is known: nobody waits for a worker any more.

Later items find the pool stopped, and their slots have their replies at once. A writer that works
therefore goes on to the end of its queue, whatever the mixture of replies in it: those that were
given at once, the results of jobs that were run, and the faults of jobs that were dropped or
refused. Each of them stands in the place of its own item, since the queue keeps its order.
-/

namespace ParamSweep

/-! ### Slots whose reply is known -/

namespace Pool

variable {J : Type}

/-- The fate of a job that is dropped is settled. -/
theorem fate_dropAll_ne_pending (pool : Pool J) {tasks : List (Task J)} {task : Task J}
    (member : task ∈ tasks) : (pool.dropAll tasks).fate task.ticket ≠ .pending := by
  intro pending
  induction tasks generalizing pool with
  | nil => cases member
  | cons other tasks inductionHypothesis =>
    obtain rfl | behind := List.mem_cons.mp member
    · -- Once the ticket is settled, no other drop makes it pending again.
      obtain same | ⟨dropped, -⟩ :=
        fate_dropAll (pool.settle .dropped task.ticket) tasks task.ticket
      · have settled : Fate.settle .dropped (pool.fate task.ticket) = .pending := by
          rw [← pending, dropAll, List.foldl_cons]
          refine Eq.trans ?_ same.symm
          rw [fate_settle, if_pos rfl]
        obtain ⟨-, now⟩ | ⟨before, same⟩ := Fate.eq_of_settle settled
        · cases now
        · exact before same
      · cases dropped.symm.trans pending
    · exact inductionHypothesis (pool.settle .dropped other.ticket) behind pending

end Pool

namespace Slot

/-- Slots that are lost do not change the fate of a ticket that none of them awaits. -/
theorem fate_loseAll {slots : List Slot} {ticket : Nat} (apart : .awaiting ticket ∉ slots)
    (pool : Pool Job) : (slots.foldl lose pool).fate ticket = pool.fate ticket := by
  induction slots generalizing pool with
  | nil => rfl
  | cons slot slots inductionHypothesis =>
    obtain ⟨other, others⟩ := not_or.mp (mt List.mem_cons.mpr apart)
    rw [List.foldl_cons, inductionHypothesis others]
    cases slot with
    | ready reply => rfl
    | awaiting own =>
      have differ : own ≠ ticket := fun same => other (same ▸ rfl)
      rw [lose, Pool.fate_abandon, if_neg differ]

end Slot

/-- An item that is fitted with a slot and submits no job has its reply in the slot. -/
theorem Reception.exists_ready {reception : Reception}
    (fits : reception.Fits ∨ reception.Refused) (unsubmitted : reception.task? = none) :
    ∃ reply, reception.slot = .ready reply := by
  obtain fits | refused := fits
  · cases fits with
    | reply known => exact ⟨_, rfl⟩
    | quit known => exact ⟨_, rfl⟩
    | job submitted => simp [task?, submitted] at unsubmitted
  · cases refused with
    | job submitted => exact ⟨_, rfl⟩

namespace Service

/-- Nobody has to wait: the reply of every slot that is queued is known. -/
def Ready (service : Service) : Prop :=
  ∀ (position : Nat) (session : Session), service.sessions[position]? = some session →
    ∀ slot ∈ session.slots, (slot.reply? service.pool).isSome = true

section

variable {first service after : Service} {history : History}

/-- A pool that stops leaves no ticket pending. -/
theorem Sound.ne_pending_of_stop (sound : Sound first service history) {pool : Pool Job}
    (stopped : service.pool.stop? = some pool) {task : Task Job}
    (member : task ∈ history.submissions) : pool.fate task.ticket ≠ .pending := by
  intro pending
  obtain ⟨idle, rfl⟩ := Pool.stop?_eq_some stopped
  have before : service.pool.fate task.ticket = .pending := by
    obtain same | ⟨dropped, -⟩ := Pool.fate_dropAll
      { service.pool with queue := [], accepting := false } service.pool.queue task.ticket
    · exact same.symm.trans pending
    · cases dropped.symm.trans pending
  obtain ⟨execution, ran, rfl⟩ | queued := sound.custody.ran_or_waits idle member
  · cases idle _ (sound.custody.owed execution ran before)
  · exact Pool.fate_dropAll_ne_pending _ queued pending

/-- When the pool stops, nobody has to wait any more. -/
theorem Sound.ready_of_stop (sound : Sound first service history)
    (possible : service.step? .stop = some after) : after.Ready := by
  obtain ⟨pool, stopped, rfl⟩ := Option.map_eq_some_iff.mp possible
  intro position session stands slot queued
  have stood : service.sessions[position]? = some session := stands
  obtain ⟨reception, member, own, waits⟩ := sound.exists_reception stood queued
  cases slot with
  | ready reply => rfl
  | awaiting ticket =>
    obtain ⟨job, submitted⟩ := (sound.fitting reception member).exists_task waits
    have working : session.severed = false := sound.working stood (List.ne_nil_of_mem queued)
    have settled := sound.ne_pending_of_stop stopped
      (List.mem_filterMap.mpr ⟨reception, member, submitted⟩)
    have kept : pool.fate ticket ≠ .abandoned := by
      intro gone
      obtain ⟨-, rfl⟩ := Pool.stop?_eq_some stopped
      obtain same | ⟨dropped, -⟩ := Pool.fate_dropAll
        { service.pool with queue := [], accepting := false } service.pool.queue ticket
      · exact sound.not_abandoned member submitted (own ▸ stood) working (same.symm.trans gone)
      · cases dropped.symm.trans gone
    simp only [Slot.reply?]
    cases fate : pool.fate ticket with
    | pending => exact absurd fate settled
    | answered reply => rfl
    | dropped => rfl
    | abandoned => exact absurd fate kept

/-- A slot that waits for a ticket is that of a job, also where the pool may have stopped. -/
theorem Halted.exists_task (halted : Halted first service history) {reception : Reception}
    (member : reception ∈ history.receptions) {ticket : Nat}
    (waits : reception.slot = .awaiting ticket) :
    ∃ job, reception.task? = some ⟨ticket, job⟩ := by
  obtain fits | refused := halted.fitting reception member
  · exact fits.exists_task waits
  · cases refused with
    | job submitted => cases waits

/-- Two sessions do not wait for one ticket. -/
theorem Halted.position_eq (halted : Halted first service history) {position other : Nat}
    {session otherSession : Session} (stands : service.sessions[position]? = some session)
    (otherStands : service.sessions[other]? = some otherSession) {ticket : Nat}
    (queued : .awaiting ticket ∈ session.slots)
    (otherQueued : .awaiting ticket ∈ otherSession.slots) : position = other := by
  obtain ⟨one, member, rfl, waits⟩ :=
    exists_reception_of_slot halted.size halted.sessions stands queued
  obtain ⟨two, otherMember, rfl, otherWaits⟩ :=
    exists_reception_of_slot halted.size halted.sessions otherStands otherQueued
  obtain ⟨job, submitted⟩ := halted.exists_task member waits
  obtain ⟨otherJob, otherSubmitted⟩ := halted.exists_task otherMember otherWaits
  rw [Reception.eq_of_ticket halted.stopped.nodup_tickets member otherMember submitted
    otherSubmitted rfl]

/-- What reading comes to once the pool has stopped: the pool stays as it is, a slot that is new has
its reply, and no job is submitted. -/
theorem Halted.read_cases (halted : Halted first service history) {position : Nat}
    (possible : service.step? (.read position) = some after) :
    ∃ session next, service.sessions[position]? = some session ∧
      after = { service with sessions := service.sessions.setIfInBounds position next } ∧
      (∀ slot ∈ next.slots, slot ∈ session.slots ∨ ∃ reply, slot = .ready reply) ∧
      ∀ reception ∈ (service.reception? (.read position)).toList, reception.task? = none := by
  obtain ⟨session, next, pool, stands, stepped, rfl⟩ := stepSession?_eq_some possible
  obtain ⟨reading, ⟨nothing, rfl, rfl⟩ | ⟨item, incoming, slot, closed, between, items, given,
    changed⟩⟩ := Session.read?_eq_some stepped
  · refine ⟨session, _, stands, rfl, fun slot => .inl, ?_⟩
    simp [reception?, stands, reading, nothing]
  · obtain ⟨rfl, unsubmitted, fits, -⟩ := halted.stopped.slotFor_spec position given
    obtain ⟨reply, rfl⟩ := Reception.exists_ready fits unsubmitted
    refine ⟨session, next, stands, ?_, ?_, ?_⟩
    · obtain ⟨-, -, rfl⟩ | ⟨-, -, rfl⟩ := changed <;> rfl
    · obtain ⟨-, rfl, -⟩ | ⟨-, rfl, -⟩ := changed
      · exact fun slot => .inl
      · intro slot queued
        obtain old | new := List.mem_append.mp queued
        · exact .inl old
        · exact .inr ⟨reply, List.mem_singleton.mp new⟩
    · simp [reception?, stands, reading, items, given, unsubmitted]

/-- Once nobody has to wait, nobody will. -/
theorem Halted.ready_step (halted : Halted first service history) (ready : service.Ready)
    {action : Action} (possible : service.step? action = some after) : after.Ready := by
  obtain ⟨rfl, -, -⟩ | ⟨position, rfl⟩ | ⟨position, rfl⟩ := halted.step_cases possible
  · exact ready
  · obtain ⟨session, next, stands, rfl, slots, -⟩ := halted.read_cases possible
    intro other otherSession found slot queued
    obtain ⟨rfl, rfl⟩ | ⟨-, stood⟩ := getElem?_setIfInBounds_eq_some found
    · obtain old | ⟨reply, rfl⟩ := slots slot queued
      · exact ready position session stands slot old
      · rfl
    · exact ready other otherSession stood slot queued
  · obtain ⟨session, next, pool, stands, stepped, rfl⟩ := stepSession?_eq_some possible
    obtain ⟨first, slots, reply, queue, -, ⟨-, rfl, rfl⟩ | ⟨-, rfl, rfl⟩⟩ :=
      Session.write?_eq_some stepped
    all_goals
      intro other otherSession found slot queued
      obtain ⟨rfl, rfl⟩ | ⟨apart, stood⟩ := getElem?_setIfInBounds_eq_some found
    · exact ready position session stands slot (queue ▸ List.mem_cons_of_mem _ queued)
    · exact ready other otherSession stood slot queued
    · cases queued
    · -- Tickets that are given up with the queue of one session are not those of another.
      have known := ready other otherSession stood slot queued
      cases slot with
      | ready reply => rfl
      | awaiting ticket =>
        have kept : .awaiting ticket ∉ session.slots := fun lost =>
          apart (halted.position_eq stands stood lost queued)
        simpa only [Slot.reply?, Slot.fate_loseAll kept] using known

end

/-! ### The time after the stop -/

/-- What holds from the moment on at which the pool stops, where `stopped` is the service at this
moment and `earlier` what happened until then. -/
structure Aftermath (first stopped : Service) (earlier : History) (service : Service)
    (history : History) : Prop where
  halted : Halted first service history
  ready : service.Ready
  timings : service.timings = stopped.timings
  executions : history.executions = earlier.executions
  late : ∃ late, history.receptions = earlier.receptions ++ late ∧
    ∀ reception ∈ late, reception.task? = none

section

variable {first stopped service after : Service} {earlier history : History}

/-- The pool stops. -/
theorem Sound.aftermath (sound : Sound first service history)
    (possible : service.step? .stop = some after) :
    Aftermath first service history after (history.after service .stop) := by
  have same : history.after service .stop = history := by
    simp [History.after, reception?, execution?]
  have halted := sound.stop possible
  rw [same] at halted ⊢
  have none : ∀ reception ∈ ([] : List Reception), reception.task? = none :=
    fun reception member => absurd member List.not_mem_nil
  refine ⟨halted, sound.ready_of_stop possible, ?_, rfl, [], (List.append_nil _).symm, none⟩
  obtain ⟨pool, -, rfl⟩ := Option.map_eq_some_iff.mp possible
  rfl

/-- No job is submitted, run or recorded any more. -/
theorem Aftermath.step (aftermath : Aftermath first stopped earlier service history)
    {action : Action} (possible : service.step? action = some after) :
    Aftermath first stopped earlier after (history.after service action) := by
  have halted := aftermath.halted
  have quiet : after.timings = service.timings ∧ service.execution? action = none ∧
      ∀ reception ∈ (service.reception? action).toList, reception.task? = none := by
    obtain ⟨rfl, taken, ran⟩ | ⟨position, rfl⟩ | ⟨position, rfl⟩ := halted.step_cases possible
    · exact ⟨rfl, ran, by rw [taken]; nofun⟩
    · obtain ⟨session, next, -, rfl, -, unsubmitted⟩ := halted.read_cases possible
      exact ⟨rfl, rfl, unsubmitted⟩
    · obtain ⟨session, next, pool, -, -, rfl⟩ := stepSession?_eq_some possible
      exact ⟨rfl, rfl, nofun⟩
  obtain ⟨timings, nothing, unsubmitted⟩ := quiet
  obtain ⟨late, receptions, unsubmittedLate⟩ := aftermath.late
  refine ⟨halted.step possible, halted.ready_step aftermath.ready possible,
    timings.trans aftermath.timings, ?_, late ++ (service.reception? action).toList, ?_, ?_⟩
  · rw [History.after, nothing]
    exact (List.append_nil _).trans aftermath.executions
  · rw [History.after, receptions, List.append_assoc]
  · intro reception member
    obtain old | new := List.mem_append.mp member
    · exact unsubmittedLate reception old
    · exact unsubmitted reception new

/-- What holds after a stop holds at the end of every run from there. -/
theorem Aftermath.run (aftermath : Aftermath first stopped earlier service history)
    {actions : List Action} (ran : service.run? actions = some after) :
    Aftermath first stopped earlier after (service.historyFrom history actions) := by
  induction actions generalizing service history with
  | nil =>
    obtain rfl := Option.some.inj ran
    exact aftermath
  | cons action actions inductionHypothesis =>
    obtain ⟨next, possible, others⟩ := Option.bind_eq_some_iff.mp ran
    rw [historyFrom, possible]
    exact inductionHypothesis (aftermath.step possible) others

/-- Where nothing can happen any more, the sessions are over: what is queued can be written. -/
theorem Ready.isOver_of_stuck (ready : service.Ready)
    (stuck : ∀ action, action ≠ .stop → service.step? action = none) {position : Nat}
    {session : Session} (stands : service.sessions[position]? = some session) :
    session.isOver = true := by
  cases closed : session.closed with
  | none =>
    have reads := isSome_read stands closed
    rw [stuck (.read position) (by simp)] at reads
    cases reads
  | some reason =>
    cases queue : session.slots with
    | nil => simp [Session.isOver, closed, queue]
    | cons slot slots =>
      have known := ready position session stands slot (queue ▸ List.mem_cons_self)
      obtain ⟨reply, known⟩ := Option.isSome_iff_exists.mp known
      have writes : (service.step? (.write position)).isSome = true := by
        simp [step?, stepSession?, stands, Session.write?, queue, known]
      rw [stuck (.write position) (by simp)] at writes
      cases writes

/-- A pool that stops leaves no more to do. -/
theorem work_stop (possible : service.step? .stop = some after) : after.work ≤ service.work := by
  obtain ⟨pool, stopped, rfl⟩ := Option.map_eq_some_iff.mp possible
  obtain ⟨-, rfl⟩ := Pool.stop?_eq_some stopped
  obtain ⟨same, -⟩ := Pool.dropAll_eq { service.pool with queue := [], accepting := false }
    service.pool.queue
  rw [work, same]
  simp only [work, Pool.work, List.length_nil]
  omega

end

end Service

/-! ### The replies -/

/-- The run of the job of an item. -/
def Reception.run? (executions : List (Execution Job)) (reception : Reception) :
    Option (Execution Job) :=
  reception.task?.bind fun task => executions.find? (·.ticket = task.ticket)

/-- The reply to an item that is taken before the pool stops: the one that is given at once, or the
result of its job if this was run, or the fault that the job was dropped. -/
def Reception.outcome (executions : List (Execution Job)) (reception : Reception) : Reply :=
  match Dispatch.ofInbound reception.item with
  | .reply reply | .quit reply => reply
  | .submit _ =>
    match reception.run? executions with
    | some execution => execution.reply
    | none => .ofFault (.service .dropped)

/-- The reply to an item that is taken after the pool has stopped: the one that is given at once, or
the fault that its job was refused. -/
def Inbound.refusal (item : Inbound) : Reply :=
  match Dispatch.ofInbound item with
  | .reply reply | .quit reply => reply
  | .submit _ => .ofFault (.service .poolClosed)

section

variable {executions : List (Execution Job)} {reception : Reception} {reply : Reply}

/-- A job that was run is found under its ticket. -/
theorem find?_ticket (distinct : (executions.map Execution.ticket).Nodup)
    {execution : Execution Job} (ran : execution ∈ executions) :
    executions.find? (·.ticket = execution.ticket) = some execution := by
  cases found : executions.find? (·.ticket = execution.ticket) with
  | none => simpa using List.find?_eq_none.mp found execution ran
  | some other =>
    have same : other.ticket = execution.ticket := by simpa using List.find?_some found
    rw [List.inj_on_of_nodup_map distinct (List.mem_of_find?_eq_some found) ran same]

/-- An item that submitted a job has no run if no job was run under its ticket. -/
theorem Reception.run?_eq_none {task : Task Job} (submitted : reception.task? = some task) :
    reception.run? executions = none ↔
      ∀ execution ∈ executions, execution.ticket ≠ task.ticket := by
  rw [run?, submitted, Option.bind_some, List.find?_eq_none]
  simp

/-- The run of an item is that of its own job. -/
theorem Reception.run?_eq_some {submissions : List (Task Job)}
    (distinct : (submissions.map Task.ticket).Nodup)
    (ran : ∀ execution ∈ executions, execution.task ∈ submissions)
    (own : ∀ task, reception.task? = some task → task ∈ submissions) {execution : Execution Job}
    (found : reception.run? executions = some execution) :
    execution ∈ executions ∧ reception.task? = some execution.task := by
  obtain ⟨task, submitted, found⟩ := Option.bind_eq_some_iff.mp found
  have member := List.mem_of_find?_eq_some found
  have same : execution.ticket = task.ticket := by simpa using List.find?_some found
  refine ⟨member, submitted.trans (congrArg some ?_)⟩
  exact List.inj_on_of_nodup_map distinct (own task submitted) (ran execution member) same.symm

/-- An item that was taken before the pool stopped has one of three fates. -/
theorem Settles.eq_outcome (settles : Settles executions reception reply)
    (fits : reception.Fits) (distinct : (executions.map Execution.ticket).Nodup) :
    reply = reception.outcome executions := by
  cases settles with
  | answered answers =>
    cases answers with
    | reply known => simp only [Reception.outcome, known]
    | quit known => simp only [Reception.outcome, known]
    | @job session item job ticket reply submitted ran =>
      have found : Reception.run? executions ⟨session, item, .awaiting ticket⟩ =
          some ⟨ticket, job, reply⟩ := by
        simp only [Reception.run?, Reception.task?, submitted, Option.bind_some]
        exact find?_ticket distinct ran
      simp only [Reception.outcome, submitted, found]
  | @dropped session item job ticket submitted unrun =>
    have task : Reception.task? ⟨session, item, .awaiting ticket⟩ = some ⟨ticket, job⟩ := by
      simp only [Reception.task?, submitted]
    simp only [Reception.outcome, submitted, (Reception.run?_eq_none task).mpr unrun]
  | refused submitted =>
    cases fits with
    | reply known => cases known.symm.trans submitted
    | quit known => cases known.symm.trans submitted

/-- An item that is taken after the pool has stopped has one of two. -/
theorem Settles.eq_refusal (settles : Settles executions reception reply)
    (unsubmitted : reception.task? = none) : reply = reception.item.refusal := by
  cases settles with
  | answered answers =>
    cases answers with
    | reply known => simp only [Inbound.refusal, known]
    | quit known => simp only [Inbound.refusal, known]
    | job submitted ran => simp [Reception.task?, submitted] at unsubmitted
  | dropped submitted unrun => simp [Reception.task?, submitted] at unsubmitted
  | refused submitted => simp only [Inbound.refusal, submitted]

/-- Replies that are settled by their items are told by a function of the items. -/
theorem Settles.eq_map {receptions : List Reception} {replies : List Reply}
    {reply : Reception → Reply} (settles : List.Forall₂ (Settles executions) receptions replies)
    (own : ∀ reception ∈ receptions, ∀ settled, Settles executions reception settled →
      settled = reply reception) : replies = receptions.map reply := by
  induction settles with
  | nil => rfl
  | cons first _ inductionHypothesis =>
    obtain ⟨here, behind⟩ := List.forall_mem_cons.mp own
    rw [List.map_cons, ← here _ first, inductionHypothesis behind]

end

namespace Service

/-- When the pool can stop, the jobs that were not run are those in its queue. -/
theorem Sound.run?_eq_none_iff {first service : Service} {history : History}
    (sound : Sound first service history)
    (idle : ∀ worker ∈ service.pool.workers, worker.isIdle = true) {reception : Reception}
    (member : reception ∈ history.receptions) {task : Task Job}
    (submitted : reception.task? = some task) :
    reception.run? history.executions = none ↔ task ∈ service.pool.queue := by
  rw [Reception.run?_eq_none submitted]
  constructor
  · intro unrun
    have submission : task ∈ history.submissions :=
      List.mem_filterMap.mpr ⟨reception, member, submitted⟩
    obtain ⟨execution, ran, rfl⟩ | queued := sound.custody.ran_or_waits idle submission
    · exact absurd rfl (unrun execution ran)
    · exact queued
  · exact fun queued execution ran => sound.custody.ticket_ne queued ran

/-- What a session comes to that is over after its pool has stopped: `earlier` is what happened
before, and `atStop` the service at this moment. -/
structure Outlived (first atStop after : Service) (earlier history : History) (position : Nat)
    (session final : Session) : Prop where
  /-- The session takes its items up to the first that ends it, or all. -/
  items : (history.receptionsOf position).map Reception.item = Session.handled session.incoming
  /-- There is one reply for each item, in the order of the items. -/
  replies : ∃ late, history.receptionsOf position = earlier.receptionsOf position ++ late ∧
    (∀ reception ∈ late, reception.task? = none) ∧
    final.written.toList =
      (earlier.receptionsOf position).map (Reception.outcome earlier.executions) ++
        late.map (·.item.refusal)
  /-- An item whose job was run has the result of its own job. -/
  results : ∀ reception ∈ earlier.receptionsOf position, ∀ execution,
    reception.run? earlier.executions = some execution →
      reception.task? = some execution.task ∧ ∃ elapsed timings,
        execution.reply = (execution.job.run elapsed timings).1.reply
  /-- The other jobs are those that waited when the pool stopped. -/
  dropped : ∀ reception ∈ earlier.receptionsOf position, ∀ task,
    reception.task? = some task →
      (reception.run? earlier.executions = none ↔ task ∈ atStop.pool.queue)
  /-- Nothing is run any more. -/
  executions : history.executions = earlier.executions
  /-- Nothing is recorded any more: the times are those of the jobs that were run. -/
  timings : after.timings = atStop.timings ∧ after.timings.times.toList =
    first.timings.times.toList ++ earlier.executions.filterMap Execution.recorded?
  /-- Why the session closes is settled by what its connection brings in. -/
  closed : final.closed = some (Session.closing session.incoming session.ending)
  /-- So it is the same reason as on any pool that does not stop. -/
  alike : ∀ (otherFirst otherAfter : Service) (actions : List Action) (width place : Nat)
    (other otherFinal : Session), otherFirst.pool = .ofWidth width →
    otherFirst.sessions[place]? = some other → other.Fresh →
    other.incoming = session.incoming → other.ending = session.ending →
    otherFirst.run? actions = some otherAfter → .stop ∉ actions →
    otherAfter.sessions[place]? = some otherFinal → otherFinal.isOver = true →
    otherFinal.closed = final.closed

/-- What was taken by a session before the pool stopped comes before what it took later. -/
theorem Aftermath.receptionsOf {first atStop after : Service} {earlier history : History}
    (aftermath : Aftermath first atStop earlier after history) (position : Nat) :
    ∃ late, history.receptionsOf position = earlier.receptionsOf position ++ late ∧
      ∀ reception ∈ late, reception.task? = none := by
  obtain ⟨late, receptions, unsubmitted⟩ := aftermath.late
  refine ⟨late.filter (·.session = position), ?_, ?_⟩
  · rw [History.receptionsOf, receptions, List.filter_append, History.receptionsOf]
  · exact fun reception member => unsubmitted reception (List.mem_of_mem_filter member)

/-- A run with a stop is one on a live pool, the stop, and what follows. -/
theorem exists_aftermath {first after : Service} {before behind : List Action} {width : Nat}
    (pool : first.pool = .ofWidth width) (fresh : ∀ other ∈ first.sessions, other.Fresh)
    (ran : first.run? (before ++ .stop :: behind) = some after) (live : .stop ∉ before) :
    ∃ atStop stopped, first.run? before = some atStop ∧ atStop.step? .stop = some stopped ∧
      stopped.run? behind = some after ∧ Sound first atStop (first.history before) ∧
      Aftermath first atStop (first.history before) after
        (first.history (before ++ .stop :: behind)) := by
  obtain ⟨atStop, ranBefore, ranOn⟩ := Option.bind_eq_some_iff.mp
    ((first.run?_append before (.stop :: behind)).symm.trans ran)
  obtain ⟨stopped, possible, ranBehind⟩ := Option.bind_eq_some_iff.mp ranOn
  have sound : Sound first atStop (first.history before) :=
    (sound_fresh pool fresh).run ranBefore live
  refine ⟨atStop, stopped, ranBefore, possible, ranBehind, sound, ?_⟩
  have whole : first.history (before ++ .stop :: behind) =
      stopped.historyFrom ((first.history before).after atStop .stop) behind := by
    rw [history, historyFrom_append ranBefore, historyFrom, possible]
    rfl
  rw [whole]
  exact (sound.aftermath possible).run ranBehind

/-- On either side of the stop, the replies are told by the items and by what was run before. -/
theorem Aftermath.replies {first atStop after : Service} {earlier history : History}
    (aftermath : Aftermath first atStop earlier after history)
    (sound : Sound first atStop earlier) {position : Nat} {replies : List Reply}
    (settles : List.Forall₂ (Settles history.executions) (history.receptionsOf position) replies) :
    ∃ late, history.receptionsOf position = earlier.receptionsOf position ++ late ∧
      (∀ reception ∈ late, reception.task? = none) ∧
      replies = (earlier.receptionsOf position).map (Reception.outcome earlier.executions) ++
        late.map (·.item.refusal) := by
  obtain ⟨late, receptions, unsubmitted⟩ := aftermath.receptionsOf position
  refine ⟨late, receptions, unsubmitted, ?_⟩
  rw [receptions, aftermath.executions] at settles
  have taken := List.forall₂_take (earlier.receptionsOf position).length settles
  have rest := List.forall₂_drop (earlier.receptionsOf position).length settles
  rw [List.take_left] at taken
  rw [List.drop_left] at rest
  rw [← List.take_append_drop (earlier.receptionsOf position).length replies]
  congr 1
  · apply Settles.eq_map taken
    intro reception member reply settled
    have fits := sound.fitting reception (List.mem_of_mem_filter member)
    exact settled.eq_outcome fits sound.custody.nodup_executed
  · apply Settles.eq_map rest
    intro reception member reply settled
    exact settled.eq_refusal (unsubmitted reception member)

/-- A pool that stops for good loses no reply. It may stop at any moment at which every worker is
idle, so none runs a job and none has still to hand over the reply of one; the jobs that wait in its
queue are then dropped, and later ones are refused. A session whose writer
manages every reply comes to its end all the same, whoever drives the service: a run is no longer
than the work there is, and it cannot end before the session is over. The session has then written
one reply for each item that it takes, in order: an item that needs no job has the reply that it
always has; a job that was run before has its own result; a job that was dropped and one that was
refused have a fault that says so, and leave no time behind. The session closes for the same reason
as on a pool that does not stop.

Proof: when the pool stops every worker is idle, so a ticket that somebody waits for is that of a
job that was run or that is dropped now. From then on the reply of every slot is known when it is
queued, and the tickets that a session gives up are its own; so a writer never has to wait. What was
written are replies that settle their items, and on either side of the stop there is only one such
reply for each item. -/
theorem outlived_of_stop {first after : Service} {before behind : List Action}
    {width position : Nat} {session : Session} (pool : first.pool = .ofWidth width)
    (fresh : ∀ other ∈ first.sessions, other.Fresh)
    (began : first.sessions[position]? = some session) (unlimited : session.capacity = none)
    (ran : first.run? (before ++ .stop :: behind) = some after) (live : .stop ∉ before)
    (once : .stop ∉ behind) :
    ∃ atStop final, first.run? before = some atStop ∧ after.sessions[position]? = some final ∧
      (before ++ .stop :: behind).length ≤ first.work + 1 ∧
      ((∀ action, action ≠ .stop → after.step? action = none) → final.isOver = true) ∧
      (final.isOver = true →
        Outlived first atStop after (first.history before)
          (first.history (before ++ .stop :: behind)) position session final) ∧
      (Reply.ofFault (.service .dropped)).text =
        "ERR;(Exception) The request was dropped before completing" ∧
      (Reply.ofFault (.service .poolClosed)).text = "ERR;(Exception) Worker pool is shut down" := by
  obtain ⟨atStop, stopped, ranBefore, possible, ranBehind, sound, aftermath⟩ :=
    exists_aftermath pool fresh ran live
  have place : position < after.sessions.size := by
    rw [aftermath.halted.size]
    exact (Array.getElem?_eq_some_iff.mp began).1
  have stands := Array.getElem?_eq_getElem place
  have follows := aftermath.halted.sessions position session _ began stands
  refine ⟨atStop, after.sessions[position], ranBefore, stands, ?_,
    fun stuck => aftermath.ready.isOver_of_stuck stuck stands, ?_, rfl, rfl⟩
  · have early := length_run ranBefore live
    have late := length_run ranBehind once
    have less := work_stop possible
    simp only [List.length_append, List.length_cons]
    omega
  · intro finished
    obtain ⟨items, settles⟩ := follows.of_isOver (follows.working unlimited) finished
    have early {reception : Reception}
        (member : reception ∈ (first.history before).receptionsOf position) :
        reception ∈ (first.history before).receptions := List.mem_of_mem_filter member
    have own : ∀ execution ∈ (first.history before).executions,
        ∃ elapsed timings, execution.reply = (execution.job.run elapsed timings).1.reply :=
      first.reply_of_mem_executions before nofun
    have closed := closed_of_isOver ran began (fresh _ (Array.mem_of_getElem? began)) stands
      finished
    refine ⟨items, aftermath.replies sound settles, ?_, ?_, aftermath.executions,
      ⟨aftermath.timings, ?_⟩, closed, ?_⟩
    · intro reception member execution found
      obtain ⟨ran, submitted⟩ := Reception.run?_eq_some sound.custody.nodup_tickets
        (fun execution => sound.custody.task_mem)
        (fun task submitted => List.mem_filterMap.mpr ⟨reception, early member, submitted⟩) found
      exact ⟨submitted, own execution ran⟩
    · intro reception member task submitted
      obtain ⟨pool, stops, -⟩ := Option.map_eq_some_iff.mp possible
      exact sound.run?_eq_none_iff (Pool.stop?_eq_some stops).1 (early member) submitted
    · rw [aftermath.timings]
      exact times_of_run ranBefore
    · intro otherFirst otherAfter actions width place other otherFinal pool otherBegan otherFresh
        incoming ending otherRan live otherStands otherFinished
      rw [closed_of_isOver otherRan otherBegan otherFresh otherStands otherFinished, incoming,
        ending, closed]

/-- A client that sends a line that is too long, three sweeps and a good bye. -/
def persistent : Session :=
  .ofIntake
    { items := [(⟨0⟩, .overlong), (⟨1⟩, .line "COUNT_GRID;x:0:1:3"),
        (⟨2⟩, .line "COUNT_GRID;x:0:1:4"), (⟨3⟩, .line "COUNT_GRID;x:0:1:5"), (⟨4⟩, .line "BYE")]
      reason := .peerClosed
      closedAt := ⟨5⟩ }
    none

/-- The first sweep is run, and its reply not yet written when the pool stops; the second waits; the
third is read only later. -/
def untilStop : List Action :=
  [.read 0, .read 0, .read 0, .write 0, .start 1, .execute 1 ⟨7⟩, .deliver 1]

/-- All that is left is read and written. -/
def sinceStop : List Action :=
  [.read 0, .write 0, .read 0, .write 0, .write 0, .write 0]

/-- The line that is too long and the first sweep keep their replies, the second sweep is dropped,
the third refused, and the good bye ends the session as ever. -/
theorem outlived_of_stop_persistent :
    ∃ (atStop after : Service) (final : Session),
      run? { pool := .ofWidth 2, sessions := #[persistent] } (untilStop ++ .stop :: sinceStop) =
        some after ∧
      after.sessions[0]? = some final ∧
      final.written.toList.map Reply.faults =
        [[.service .lineTooLong], [], [.service .dropped], [.service .poolClosed], []] ∧
      final.closed = some .quit ∧
      Outlived { pool := .ofWidth 2, sessions := #[persistent] } atStop after
        (history { pool := .ofWidth 2, sessions := #[persistent] } untilStop)
        (history { pool := .ofWidth 2, sessions := #[persistent] }
          (untilStop ++ .stop :: sinceStop)) 0 persistent final := by
  let first : Service := { pool := .ofWidth 2, sessions := #[persistent] }
  have ends : (first.run? (untilStop ++ .stop :: sinceStop)).any (fun after =>
      after.sessions[0]?.any fun session => session.isOver &&
        session.written.toList.map Reply.faults ==
          [[.service .lineTooLong], [], [.service .dropped], [.service .poolClosed], []]) =
      true := by
    decide +kernel
  obtain ⟨after, ran, known⟩ := (Option.any_eq_true _ _).mp ends
  have fresh : ∀ other ∈ first.sessions, other.Fresh := Session.fresh_of_mem_singleton
  have began : first.sessions[0]? = some persistent := rfl
  obtain ⟨atStop, final, -, stands, -, -, complete, -, -⟩ :=
    outlived_of_stop rfl fresh began rfl ran (by decide) (by decide)
  rw [stands, Option.any_some, Bool.and_eq_true, beq_iff_eq] at known
  have outlived := complete known.1
  exact ⟨atStop, after, final, ran, stands, known.2, outlived.closed, outlived⟩

end Service

end ParamSweep
