import ParamSweep.Proofs.Service.Order

/-!
# Pools that stop

A pool stops for good when all of its workers are idle. The jobs that wait in its queue are dropped,
and later ones are refused; so nothing is run any more, and only readers and writers move.

What was run before remains the only run of its job, and the reply of this run the only success that
a client can get for it. An item whose job was dropped or refused gets a fault that says so. So what
holds before the pool stops, with this one exception, holds for all runs.
-/

namespace ParamSweep

variable {J : Type}

/-! ### The pool -/

namespace Pool

/-- The pool after the tickets of some tasks are dropped. -/
def dropAll (pool : Pool J) (tasks : List (Task J)) : Pool J :=
  tasks.foldl (fun pool task => pool.settle .dropped task.ticket) pool

/-- A pool stops only while every worker is idle. It drops what waits, and takes no more jobs. -/
theorem stop?_eq_some {pool after : Pool J} (stopped : pool.stop? = some after) :
    (∀ worker ∈ pool.workers, worker.isIdle = true) ∧
      after = dropAll { pool with queue := [], accepting := false } pool.queue := by
  unfold stop? at stopped
  split at stopped
  next idle => exact ⟨List.all_eq_true.mp idle, (Option.some.inj stopped).symm⟩
  next => cases stopped

/-- Dropping tickets changes nothing but their fates. -/
theorem dropAll_eq (pool : Pool J) (tasks : List (Task J)) :
    pool.dropAll tasks = { pool with fates := (pool.dropAll tasks).fates } ∧
      (pool.dropAll tasks).fates.size = pool.fates.size := by
  induction tasks generalizing pool with
  | nil => exact ⟨rfl, rfl⟩
  | cons task tasks inductionHypothesis =>
    obtain ⟨same, size⟩ := inductionHypothesis (pool.settle .dropped task.ticket)
    exact ⟨same, size.trans (pool.size_fates_settle .dropped task.ticket)⟩

/-- A ticket that is not dropped has the fate it had. -/
theorem fate_dropAll (pool : Pool J) (tasks : List (Task J)) (ticket : Nat) :
    (pool.dropAll tasks).fate ticket = pool.fate ticket ∨
      (pool.dropAll tasks).fate ticket = .dropped ∧ ∃ task ∈ tasks, task.ticket = ticket := by
  induction tasks generalizing pool with
  | nil => exact .inl rfl
  | cons task tasks inductionHypothesis =>
    obtain same | ⟨dropped, other, member, own⟩ :=
      inductionHypothesis (pool.settle .dropped task.ticket)
    · rw [fate_settle] at same
      split at same
      next own =>
        obtain ⟨-, now⟩ | ⟨-, before⟩ := Fate.eq_of_settle same.symm
        · exact .inr ⟨now, task, List.mem_cons_self, own⟩
        · exact .inl before.symm
      next => exact .inl same
    · exact .inr ⟨dropped, other, List.mem_cons_of_mem _ member, own⟩

end Pool

/-- Where the jobs of a pool are that has stopped: those that were run are in the past, and the
others are nowhere. -/
structure Stopped (pool : Pool J) (submissions : List (Task J)) (executions : List (Execution J)) :
    Prop where
  refusing : pool.accepting = false
  idle : ∀ worker ∈ pool.workers, worker.isIdle = true
  empty : pool.queue = []
  tickets : submissions.map Task.ticket = List.range pool.fates.size
  ran : (executions.map Execution.task).Subperm submissions
  answered : ∀ ticket reply, pool.fate ticket = .answered reply →
    ∃ execution ∈ executions, execution.ticket = ticket ∧ execution.reply = reply
  dropped : ∀ ticket, pool.fate ticket = .dropped →
    ∀ execution ∈ executions, execution.ticket ≠ ticket

section

variable {pool after : Pool J} {submissions : List (Task J)} {executions : List (Execution J)}

/-- A job that waits has not been run. -/
theorem Custody.ticket_ne (custody : Custody pool submissions executions) {task : Task J}
    (waits : task ∈ pool.queue) {execution : Execution J} (ran : execution ∈ executions) :
    execution.ticket ≠ task.ticket := by
  have all := (custody.places.map Task.ticket).nodup_iff.mpr custody.nodup_tickets
  rw [List.map_append, List.map_append, List.map_map] at all
  exact (List.nodup_append.mp all).2.2 _
    (List.mem_append_left _ (List.mem_map_of_mem (f := Task.ticket ∘ Execution.task) ran)) _
    (List.mem_map_of_mem waits)

/-- Every run is that of a job that was submitted, and no job is run twice. -/
theorem Custody.ran (custody : Custody pool submissions executions) :
    (executions.map Execution.task).Subperm submissions := by
  refine .trans (List.Sublist.subperm ?_) custody.places.subperm
  rw [List.append_assoc]
  exact List.sublist_append_left _ _

/-- A pool that stops drops the jobs that were not run. -/
theorem Custody.stop (custody : Custody pool submissions executions)
    (stopped : pool.stop? = some after) : Stopped after submissions executions := by
  obtain ⟨idle, rfl⟩ := Pool.stop?_eq_some stopped
  obtain ⟨same, size⟩ :=
    Pool.dropAll_eq { pool with queue := [], accepting := false } pool.queue
  have fates := Pool.fate_dropAll { pool with queue := [], accepting := false } pool.queue
  refine ⟨?_, ?_, ?_, ?_, custody.ran, ?_, ?_⟩
  · rw [same]
  · rw [same]
    exact idle
  · rw [same]
  · rw [size]
    exact custody.tickets
  · intro ticket reply answered
    obtain before | ⟨dropped, -⟩ := fates ticket
    · exact custody.answered ticket reply (before.symm.trans answered)
    · cases dropped.symm.trans answered
  · intro ticket dropped execution ran
    obtain before | ⟨-, task, waits, rfl⟩ := fates ticket
    · exact absurd (before.symm.trans dropped) (custody.kept ticket)
    · exact custody.ticket_ne waits ran

namespace Stopped

/-- No two jobs were submitted under one ticket. -/
theorem nodup_tickets (stopped : Stopped pool submissions executions) :
    (submissions.map Task.ticket).Nodup := by
  rw [stopped.tickets]
  exact List.nodup_range

/-- Somebody gives up waiting. -/
theorem abandon (stopped : Stopped pool submissions executions) (ticket : Nat) :
    Stopped (pool.abandon ticket) submissions executions := by
  have fates := pool.fate_abandon ticket
  refine ⟨stopped.refusing, stopped.idle, stopped.empty, ?_, stopped.ran, ?_, ?_⟩
  · rw [stopped.tickets]
    simp [Pool.abandon]
  · intro other reply answered
    rw [fates] at answered
    split at answered
    · cases answered
    · exact stopped.answered other reply answered
  · intro other dropped
    rw [fates] at dropped
    split at dropped
    · cases dropped
    · exact stopped.dropped other dropped

/-- A pool that has stopped starts no job. -/
theorem start?_eq_none (stopped : Stopped pool submissions executions) (worker : Nat) :
    pool.start? worker = none := by
  refine Option.eq_none_iff_forall_ne_some.mpr fun after started => ?_
  obtain ⟨task, queue, -, waiting, -⟩ := Pool.start?_eq_some started
  cases stopped.empty.symm.trans waiting

/-- In a pool that has stopped every worker is idle. -/
theorem getElem?_workers (stopped : Stopped pool submissions executions) {place : Nat}
    {worker : Worker J} (stands : pool.workers[place]? = some worker) :
    worker.isIdle = true :=
  stopped.idle worker (List.mem_of_getElem? stands)

/-- It runs no job. -/
theorem running?_eq_none (stopped : Stopped pool submissions executions) (worker : Nat) :
    pool.running? worker = none := by
  refine Option.eq_none_iff_forall_ne_some.mpr fun task runs => ?_
  cases stopped.getElem?_workers (Pool.running?_eq_some runs)

/-- It hands over no reply. -/
theorem deliver?_eq_none (stopped : Stopped pool submissions executions) (worker : Nat) :
    pool.deliver? worker = none := by
  refine Option.eq_none_iff_forall_ne_some.mpr fun after delivered => ?_
  obtain ⟨ticket, reply, stands, -⟩ := Pool.deliver?_eq_some delivered
  cases stopped.getElem?_workers stands

/-- Stopping once more changes nothing. -/
theorem stop (stopped : Stopped pool submissions executions) (again : pool.stop? = some after) :
    after = pool := by
  obtain ⟨-, rfl⟩ := Pool.stop?_eq_some again
  obtain ⟨workers, queue, fates, accepting⟩ := pool
  obtain rfl : queue = [] := stopped.empty
  obtain rfl : accepting = false := stopped.refusing
  rfl

end Stopped

end

/-! ### Replies -/

/-- An item whose job was refused has the fault in its slot. -/
inductive Reception.Refused : Reception → Prop
  | job {session : Nat} {item : Inbound} {job : Job}
      (submitted : Dispatch.ofInbound item = .submit job) :
      Refused ⟨session, item, .ready (.ofFault (.service .poolClosed))⟩

/-- A reply to an item where the pool may stop: the answer to the item, or the fault that its job
was dropped before it was run, or that it was refused. -/
inductive Settles (executions : List (Execution Job)) : Reception → Reply → Prop
  | answered {reception : Reception} {reply : Reply}
      (answers : Answers executions reception reply) : Settles executions reception reply
  | dropped {session : Nat} {item : Inbound} {job : Job} {ticket : Nat}
      (submitted : Dispatch.ofInbound item = .submit job)
      (unrun : ∀ execution ∈ executions, execution.ticket ≠ ticket) :
      Settles executions ⟨session, item, .awaiting ticket⟩ (.ofFault (.service .dropped))
  | refused {session : Nat} {item : Inbound} {job : Job}
      (submitted : Dispatch.ofInbound item = .submit job) :
      Settles executions ⟨session, item, .ready (.ofFault (.service .poolClosed))⟩
        (.ofFault (.service .poolClosed))

/-- A success is the answer. -/
theorem Settles.answers {executions : List (Execution Job)} {reception : Reception}
    {reply : Reply} (settles : Settles executions reception reply) (succeeds : reply.isOk = true) :
    Answers executions reception reply := by
  cases settles with
  | answered answers => exact answers
  | dropped => cases succeeds
  | refused => cases succeeds

namespace Stopped

variable {pool after : Pool Job} {submissions : List (Task Job)}
  {executions : List (Execution Job)}

/-- A slot that is lost does not start the pool again. -/
theorem lose (stopped : Stopped pool submissions executions) (slot : Slot) :
    Stopped (slot.lose pool) submissions executions := by
  cases slot with
  | ready reply => exact stopped
  | awaiting ticket => exact stopped.abandon ticket

/-- Nor do all the slots of a session. -/
theorem loseAll (stopped : Stopped pool submissions executions) (slots : List Slot) :
    Stopped (slots.foldl Slot.lose pool) submissions executions := by
  induction slots generalizing pool with
  | nil => exact stopped
  | cons slot slots inductionHypothesis => exact inductionHypothesis (stopped.lose slot)

/-- The slot for an item, on a pool that has stopped: no job is submitted. -/
theorem slotFor_spec (stopped : Stopped pool submissions executions) (position : Nat)
    {item : Inbound} {slot : Slot} {closed : Option CloseReason}
    (given : Session.slotFor pool item = (slot, closed, after)) :
    after = pool ∧ Reception.task? ⟨position, item, slot⟩ = none ∧
      (Reception.Fits ⟨position, item, slot⟩ ∨ Reception.Refused ⟨position, item, slot⟩) ∧
      closed = if Session.quits item then some .quit else none := by
  obtain ⟨reply, known, rfl, rfl, rfl⟩ | ⟨reply, known, rfl, rfl, rfl⟩ |
    ⟨job, ticket, known, rfl, rfl, submitted⟩ | ⟨job, known, -, rfl, rfl, rfl⟩ :=
      Session.slotFor_cases given
  · exact ⟨rfl, by simp [Reception.task?], .inl (.reply known), by simp [Session.quits, known]⟩
  · exact ⟨rfl, by simp [Reception.task?], .inl (.quit known), by simp [Session.quits, known]⟩
  · rw [Pool.submit?, stopped.refusing] at submitted
    cases submitted
  · exact ⟨rfl, by simp [Reception.task?], .inr (.job known), by simp [Session.quits, known]⟩

/-- A reply that is known for a slot settles the item of the slot. -/
theorem settles {receptions : List Reception}
    (stopped : Stopped pool (receptions.filterMap Reception.task?) executions)
    {reception : Reception} (member : reception ∈ receptions)
    (fits : reception.Fits ∨ reception.Refused) {reply : Reply}
    (known : reception.slot.reply? pool = some reply) : Settles executions reception reply := by
  obtain fits | refused := fits
  · cases fits with
    | reply given =>
      cases known
      exact .answered (.reply given)
    | quit given =>
      cases known
      exact .answered (.quit given)
    | @job session item job ticket submitted =>
      simp only [Slot.reply?] at known
      split at known
      next answer fate =>
        obtain rfl := Option.some.inj known
        obtain ⟨execution, ran, same, rfl⟩ := stopped.answered ticket answer fate
        have own := stopped.ran.subset (List.mem_map_of_mem ran)
        exact .answered
          (answers_of_ticket stopped.nodup_tickets ran own member submitted same)
      next fate =>
        obtain rfl := Option.some.inj known
        exact .dropped submitted (stopped.dropped ticket fate)
      next => cases known
      next => cases known
  · cases refused with
    | job submitted =>
      cases known
      exact .refused submitted

end Stopped

/-! ### The service -/

namespace Service

/-- What a service whose pool has stopped and the history of its run have in common, if it began as
`first`. -/
structure Halted (first service : Service) (history : History) : Prop where
  stopped : Stopped service.pool history.submissions history.executions
  fitting : ∀ reception ∈ history.receptions, reception.Fits ∨ reception.Refused
  size : service.sessions.size = first.sessions.size
  sessions : ∀ (position : Nat) (before session : Session),
    first.sessions[position]? = some before → service.sessions[position]? = some session →
    session.FollowsBy (Settles history.executions) before (history.receptionsOf position)

section

variable {first service after : Service} {history : History}

/-- A pool that stops. -/
theorem Sound.stop (sound : Sound first service history)
    (possible : service.step? .stop = some after) :
    Halted first after (history.after service .stop) := by
  obtain ⟨pool, stopped, rfl⟩ := Option.map_eq_some_iff.mp possible
  have same : history.after service .stop = history := by
    simp [History.after, reception?, execution?]
  rw [same]
  refine ⟨sound.custody.stop stopped, ?_, sound.size, ?_⟩
  · exact fun reception member => .inl (sound.fitting reception member)
  · intro position before session began stands
    exact (sound.sessions position before session began stands).imp
      fun reception reply answers => .answered answers

/-- A step of one session keeps what holds, if it does so for that session. -/
theorem Halted.session (halted : Halted first service history) {position : Nat}
    {session : Session} (stands : service.sessions[position]? = some session) (next : Session)
    (more : List Reception) {pool : Pool Job}
    (stopped : Stopped pool history.submissions history.executions)
    (idle : ∀ reception ∈ more, reception.task? = none)
    (fitting : ∀ reception ∈ more, reception.Fits ∨ reception.Refused)
    (own : ∀ reception ∈ more, reception.session = position)
    (follows : ∀ before,
      session.FollowsBy (Settles history.executions) before (history.receptionsOf position) →
      next.FollowsBy (Settles history.executions) before
        (history.receptionsOf position ++ more)) :
    Halted first { service with pool, sessions := service.sessions.setIfInBounds position next }
      { history with receptions := history.receptions ++ more } := by
  have same : History.submissions { history with receptions := history.receptions ++ more } =
      history.submissions := by
    rw [History.submissions, List.filterMap_append, List.filterMap_eq_nil_iff.mpr idle,
      List.append_nil, History.submissions]
  refine ⟨same ▸ stopped, ?_, ?_, ?_⟩
  · intro reception member
    obtain old | new := List.mem_append.mp member
    · exact halted.fitting reception old
    · exact fitting reception new
  · rw [Array.size_setIfInBounds, halted.size]
  · intro other before after began found
    exact followsBy_of_step halted.sessions stands own follows began found

/-- A session takes an item after the stop. -/
theorem Halted.read (halted : Halted first service history) {position : Nat}
    (possible : service.step? (.read position) = some after) :
    Halted first after (history.after service (.read position)) := by
  obtain ⟨session, next, pool, stands, stepped, rfl⟩ := stepSession?_eq_some possible
  obtain ⟨reading, changed⟩ := Session.read?_eq_some stepped
  obtain ⟨nothing, rfl, rfl⟩ | ⟨item, incoming, slot, closed, between, items, given, changed⟩ :=
    changed
  · have taken : service.reception? (.read position) = none := by
      simp [reception?, stands, reading, nothing]
    have kept := halted.session stands { session with closed := some session.ending } []
      halted.stopped (by simp) (by simp) (by simp)
      (fun before follows => by
        simpa using follows.close reading nothing session.ending)
    simpa [History.after, taken, execution?] using kept
  · have taken : service.reception? (.read position) = some ⟨position, item, slot⟩ := by
      simp [reception?, stands, reading, items, given]
    obtain ⟨rfl, unsubmitted, fits, ends⟩ := halted.stopped.slotFor_spec position given
    have one : ∀ reception ∈ [(⟨position, item, slot⟩ : Reception)],
        reception = ⟨position, item, slot⟩ := fun _ => List.mem_singleton.mp
    obtain ⟨stopped, moved⟩ : Stopped pool history.submissions history.executions ∧
        (session.severed = true ∧ next = { session with incoming, closed } ∨
          session.severed = false ∧
            next = { session with incoming, closed, slots := session.slots ++ [slot] }) := by
      obtain ⟨severed, rfl, rfl⟩ | ⟨working, rfl, rfl⟩ := changed
      · exact ⟨halted.stopped.lose slot, .inl ⟨severed, rfl⟩⟩
      · exact ⟨halted.stopped, .inr ⟨working, rfl⟩⟩
    have kept := halted.session stands next [⟨position, item, slot⟩] stopped
      (fun reception new => one reception new ▸ unsubmitted)
      (fun reception new => one reception new ▸ fits)
      (fun reception new => one reception new ▸ rfl)
      (fun before follows => follows.read reading items ends moved)
    simpa [History.after, taken, execution?] using kept

/-- A session writes a reply after the stop. -/
theorem Halted.write (halted : Halted first service history) {position : Nat}
    (possible : service.step? (.write position) = some after) :
    Halted first after (history.after service (.write position)) := by
  obtain ⟨session, next, pool, stands, stepped, rfl⟩ := stepSession?_eq_some possible
  obtain ⟨slot, slots, reply, queue, known, changed⟩ := Session.write?_eq_some stepped
  have settles : ∀ reception ∈ history.receptionsOf position, reception.slot = slot →
      Settles history.executions reception reply := by
    intro reception member same
    have inside : reception ∈ history.receptions := List.mem_of_mem_filter member
    exact halted.stopped.settles inside (halted.fitting reception inside) (same ▸ known)
  obtain ⟨stopped, follows⟩ : Stopped pool history.submissions history.executions ∧
      ∀ before,
        session.FollowsBy (Settles history.executions) before (history.receptionsOf position) →
        next.FollowsBy (Settles history.executions) before
          (history.receptionsOf position ++ []) := by
    rw [List.append_nil]
    obtain ⟨room, rfl, rfl⟩ | ⟨full, rfl, rfl⟩ := changed
    · exact ⟨halted.stopped, fun before follows => follows.write queue settles⟩
    · exact ⟨halted.stopped.loseAll session.slots, fun before follows => follows.sever full⟩
  have kept := halted.session stands next [] stopped (by simp) (by simp) (by simp) follows
  simpa [History.after, reception?, execution?] using kept

/-- What can still happen once the pool has stopped: a reader or a writer moves. -/
theorem Halted.step_cases (halted : Halted first service history) {action : Action}
    (possible : service.step? action = some after) :
    after = service ∧ service.reception? action = none ∧ service.execution? action = none ∨
      (∃ position, action = .read position) ∨ ∃ position, action = .write position := by
  cases action with
  | read position => exact .inr (.inl ⟨position, rfl⟩)
  | write position => exact .inr (.inr ⟨position, rfl⟩)
  | start worker =>
    obtain ⟨pool, started, -⟩ := Option.map_eq_some_iff.mp possible
    cases (halted.stopped.start?_eq_none worker).symm.trans started
  | execute worker elapsed =>
    obtain ⟨task, pool, runs, -, -⟩ := execute?_eq_some possible
    cases (halted.stopped.running?_eq_none worker).symm.trans runs
  | deliver worker =>
    obtain ⟨pool, delivered, -⟩ := Option.map_eq_some_iff.mp possible
    cases (halted.stopped.deliver?_eq_none worker).symm.trans delivered
  | stop =>
    obtain ⟨pool, again, rfl⟩ := Option.map_eq_some_iff.mp possible
    obtain rfl := halted.stopped.stop again
    exact .inl ⟨rfl, rfl, rfl⟩

/-- Once the pool has stopped only readers and writers move, and what holds is kept. -/
theorem Halted.step (halted : Halted first service history) {action : Action}
    (possible : service.step? action = some after) :
    Halted first after (history.after service action) := by
  obtain ⟨rfl, taken, ran⟩ | ⟨position, rfl⟩ | ⟨position, rfl⟩ := halted.step_cases possible
  · simpa [History.after, taken, ran] using halted
  · exact halted.read possible
  · exact halted.write possible

end

/-- What every run keeps, whether or not the pool stops in it. -/
structure Accounted (first service : Service) (history : History) : Prop where
  tickets : (history.submissions.map Task.ticket).Nodup
  ran : (history.executions.map Execution.task).Subperm history.submissions
  size : service.sessions.size = first.sessions.size
  sessions : ∀ (position : Nat) (before session : Session),
    first.sessions[position]? = some before → service.sessions[position]? = some session →
    session.FollowsBy (Settles history.executions) before (history.receptionsOf position)

section

variable {first service after : Service} {history : History}

/-- What was run was submitted under the ticket of the run. -/
theorem Accounted.task_mem (accounted : Accounted first service history)
    {execution : Execution Job} (member : execution ∈ history.executions) :
    execution.task ∈ history.submissions :=
  accounted.ran.subset (List.mem_map_of_mem member)

/-- No job is run twice. -/
theorem Accounted.nodup_executed (accounted : Accounted first service history) :
    (history.executions.map Execution.ticket).Nodup := by
  obtain ⟨run, same, inside⟩ := accounted.ran
  have distinct := (inside.map Task.ticket).nodup accounted.tickets
  rw [(same.map Task.ticket).nodup_iff, List.map_map] at distinct
  exact distinct

/-- A session that began is still there, and follows what was taken by it. -/
theorem Accounted.exists_session (accounted : Accounted first service history) {position : Nat}
    {before : Session} (began : first.sessions[position]? = some before) :
    ∃ session, service.sessions[position]? = some session ∧
      session.FollowsBy (Settles history.executions) before (history.receptionsOf position) := by
  have place : position < service.sessions.size := by
    rw [accounted.size]
    exact (Array.getElem?_eq_some_iff.mp began).1
  have stands := Array.getElem?_eq_getElem place
  exact ⟨_, stands, accounted.sessions position before _ began stands⟩

/-- Before a stop every item is accounted for by the run of its job. -/
theorem Sound.accounted (sound : Sound first service history) :
    Accounted first service history where
  tickets := sound.custody.nodup_tickets
  ran := sound.custody.ran
  size := sound.size
  sessions position before session began stands :=
    (sound.sessions position before session began stands).imp
      fun _ _ answers => .answered answers

/-- After a stop every item is accounted for, also by a job that was dropped or refused. -/
theorem Halted.accounted (halted : Halted first service history) :
    Accounted first service history :=
  ⟨halted.stopped.nodup_tickets, halted.stopped.ran, halted.size, halted.sessions⟩

/-- What holds at the start of a run, and what its stop leaves of it, holds at its end. -/
theorem sound_or_halted_of_run {actions : List Action}
    (before : Sound first service history ∨ Halted first service history)
    (ran : service.run? actions = some after) :
    Sound first after (service.historyFrom history actions) ∨
      Halted first after (service.historyFrom history actions) := by
  induction actions generalizing service history with
  | nil =>
    obtain rfl := Option.some.inj ran
    exact before
  | cons action actions inductionHypothesis =>
    obtain ⟨next, stepped, others⟩ := Option.bind_eq_some_iff.mp ran
    have step : Sound first next (history.after service action) ∨
        Halted first next (history.after service action) := by
      obtain sound | halted := before
      · by_cases stops : action = .stop
        · subst stops
          exact .inr (sound.stop stepped)
        · exact .inl (sound.step stepped stops)
      · exact .inr (halted.step stepped)
    rw [historyFrom, stepped]
    exact inductionHypothesis step others

/-- Every job and every reply is accounted for after a run. -/
theorem accounted_of_run {actions : List Action} {width : Nat}
    (pool : service.pool = .ofWidth width) (fresh : ∀ session ∈ service.sessions, session.Fresh)
    (ran : service.run? actions = some after) :
    Accounted service after (service.history actions) := by
  obtain sound | halted := sound_or_halted_of_run (.inl (sound_fresh pool fresh)) ran
  · exact sound.accounted
  · exact halted.accounted

end

end Service

end ParamSweep
