import Mathlib.Algebra.GroupWithZero.Nat
import Mathlib.Data.List.Pairwise
import ParamSweep.Proofs.Service.Order

/-!
# A service does not get stuck

As long as a session is not over, something in the service can move: its reader, or its writer,
or a worker. For if the first slot of a session waits for a ticket, then the job of the ticket
is still in the pool, since nobody gives up a ticket of a session whose writer works; and a pool
that has a job can always do something about it.

Nor can a service go on forever. Every item is read once, and every job is started, run and
handed over once, so the work that is left gets less with every action. Together this means that
a session comes to its end however its service is driven.
-/

namespace ParamSweep

/-- Two items that got the same ticket are one. -/
theorem Reception.eq_of_ticket {receptions : List Reception}
    (distinct : ((receptions.filterMap task?).map Task.ticket).Nodup) {one other : Reception}
    (member : one ∈ receptions) (otherMember : other ∈ receptions) {task otherTask : Task Job}
    (submitted : one.task? = some task) (otherSubmitted : other.task? = some otherTask)
    (same : task.ticket = otherTask.ticket) : one = other := by
  have apart := List.pairwise_filterMap.mp (List.pairwise_map.mp distinct)
  by_contra differ
  have symmetric : Std.Symm fun left right : Reception => ∀ task, left.task? = some task →
      ∀ other, right.task? = some other → task.ticket ≠ other.ticket :=
    ⟨fun left right law task found other otherFound =>
      (law other otherFound task found).symm⟩
  exact List.Pairwise.forall apart member otherMember differ task submitted otherTask
    otherSubmitted same

/-- A slot that waits for a ticket is that of a job. -/
theorem Reception.Fits.exists_task {reception : Reception} (fits : reception.Fits) {ticket : Nat}
    (waits : reception.slot = .awaiting ticket) :
    ∃ job, reception.task? = some ⟨ticket, job⟩ := by
  cases fits with
  | reply known => cases waits
  | quit known => cases waits
  | @job session item job own submitted =>
    cases waits
    exact ⟨job, by simp only [task?, submitted]⟩

/-- A session that is not closed can read, if only that there is nothing more. -/
theorem Session.exists_read {session : Session} (reading : session.closed = none)
    (pool : Pool Job) : ∃ next, session.read? pool = some next := by
  unfold read?
  rw [reading]
  cases session.incoming with
  | nil => exact ⟨_, rfl⟩
  | cons item incoming =>
    simp only
    split <;> exact ⟨_, rfl⟩

/-- Whether an action brings replies forward: it is that of a writer or a worker. -/
def Action.settles : Action → Bool
  | .read _ | .stop => false
  | .write _ | .start _ | .execute _ _ | .deliver _ => true

namespace Pool

/-- A worker that is not idle can go on. -/
theorem exists_move (service : Service) {worker : Nat} {state : Worker Job}
    (stands : service.pool.workers[worker]? = some state) (busy : state.isIdle = false) :
    ∃ action, action.settles = true ∧ (service.step? action).isSome = true := by
  cases state with
  | idle => cases busy
  | running task =>
    refine ⟨.execute worker .zero, rfl, ?_⟩
    have runs : service.pool.running? worker = some task := by simp [running?, stands]
    simp [Service.step?, Service.execute?, runs, finish?]
  | finished ticket reply =>
    refine ⟨.deliver worker, rfl, ?_⟩
    simp [Service.step?, Service.stepPool?, deliver?, stands]

/-- Whether all jobs of a pool have ended: none waits, and every worker is idle. -/
structure IsQuiet {J : Type} (pool : Pool J) : Prop where
  queue : pool.queue = []
  idle : ∀ worker ∈ pool.workers, worker.isIdle = true

/-- A pool can be seen to be quiet: its queue and its workers are looked at. -/
theorem isQuiet_iff {J : Type} (pool : Pool J) :
    pool.queue.isEmpty = true ∧ pool.workers.all Worker.isIdle = true ↔ pool.IsQuiet := by
  rw [List.isEmpty_iff, List.all_eq_true]
  exact ⟨fun quiet => ⟨quiet.1, quiet.2⟩, fun quiet => ⟨quiet.queue, quiet.idle⟩⟩

instance {J : Type} (pool : Pool J) : Decidable pool.IsQuiet :=
  decidable_of_iff _ pool.isQuiet_iff

end Pool

namespace Service

/-- As long as not all jobs have ended, a worker can go on or take the next job. -/
theorem exists_move_of_busy {service : Service} (staffed : service.pool.workers ≠ [])
    (busy : ¬service.pool.IsQuiet) :
    ∃ action, action.settles = true ∧ (service.step? action).isSome = true := by
  by_cases idle : ∀ worker ∈ service.pool.workers, worker.isIdle = true
  · have waits : service.pool.queue ≠ [] := fun nothing => busy ⟨nothing, idle⟩
    obtain ⟨task, queue, waiting⟩ := List.exists_cons_of_ne_nil waits
    obtain ⟨worker, workers, staff⟩ := List.exists_cons_of_ne_nil staffed
    have stands : service.pool.workers[0]? = some worker := by rw [staff]; rfl
    have free := idle worker (List.mem_of_getElem? stands)
    refine ⟨.start 0, rfl, ?_⟩
    cases worker with
    | idle => simp [step?, stepPool?, Pool.start?, stands, waiting]
    | running task => cases free
    | finished ticket reply => cases free
  · simp only [not_forall] at idle
    obtain ⟨worker, member, works⟩ := idle
    obtain ⟨place, stands⟩ := List.mem_iff_getElem?.mp member
    exact Pool.exists_move service stands (by simpa using works)

/-- Where a job is in the pool, the pool can move. -/
theorem Sound.exists_move {first service : Service} {history : History}
    (sound : Sound first service history) {task : Task Job} (member : task ∈ history.submissions)
    (pending : service.pool.fate task.ticket = .pending) :
    ∃ action, action.settles = true ∧ (service.step? action).isSome = true := by
  have place := sound.custody.places.mem_iff.mpr member
  simp only [List.mem_append, List.mem_map] at place
  obtain (⟨execution, ran, rfl⟩ | running) | queued := place
  · have held := sound.custody.owed execution ran pending
    obtain ⟨worker, stands⟩ := List.mem_iff_getElem?.mp held
    exact Pool.exists_move service stands rfl
  · obtain ⟨state, stationed, found⟩ := List.mem_filterMap.mp running
    obtain ⟨worker, stands⟩ := List.mem_iff_getElem?.mp stationed
    refine Pool.exists_move service stands ?_
    cases state <;> first | rfl | cases found
  · exact exists_move_of_busy sound.custody.staffed fun quiet =>
      List.ne_nil_of_mem queued quiet.queue

/-- The ticket of an item of a session whose writer works is not given up. -/
theorem Sound.not_abandoned {first service : Service} {history : History}
    (sound : Sound first service history) {reception : Reception}
    (member : reception ∈ history.receptions) {task : Task Job}
    (submitted : reception.task? = some task) {session : Session}
    (stands : service.sessions[reception.session]? = some session)
    (working : session.severed = false) : service.pool.fate task.ticket ≠ .abandoned := by
  intro gone
  have known : task.ticket < service.pool.fates.size := by
    have listed : task.ticket ∈ history.submissions.map Task.ticket :=
      List.mem_map_of_mem (List.mem_filterMap.mpr ⟨reception, member, submitted⟩)
    rwa [sound.custody.tickets, List.mem_range] at listed
  obtain ⟨other, otherMember, waits, owner, ownerStands, severed⟩ :=
    sound.abandoned task.ticket known gone
  obtain ⟨job, otherSubmitted⟩ := (sound.fitting other otherMember).exists_task waits
  have one : reception = other := Reception.eq_of_ticket sound.custody.nodup_tickets member
    otherMember submitted otherSubmitted rfl
  rw [← one, stands] at ownerStands
  rw [← Option.some.inj ownerStands, working] at severed
  cases severed

/-- A writer that has ended leaves no queue. -/
theorem Sound.working {first service : Service} {history : History}
    (sound : Sound first service history) {position : Nat} {session : Session}
    (stands : service.sessions[position]? = some session) (queued : session.slots ≠ []) :
    session.severed = false := by
  have place : position < first.sessions.size := by
    rw [← sound.size]
    exact (Array.getElem?_eq_some_iff.mp stands).1
  have follows := sound.sessions position _ session (Array.getElem?_eq_getElem place) stands
  cases severed : session.severed with
  | false => rfl
  | true => exact absurd (follows.severed severed).1 queued

/-- Nothing has to be read for a session that is closed and not over to go on. -/
theorem Sound.exists_settling {first service : Service} {history : History}
    (sound : Sound first service history) {position : Nat} {session : Session}
    (stands : service.sessions[position]? = some session) (working : session.severed = false)
    (closed : session.closed.isSome = true) (unfinished : session.isOver = false) :
    ∃ action, action.settles = true ∧ (service.step? action).isSome = true := by
  simp only [Session.isOver, closed, working, Bool.true_and, Bool.false_or,
    List.isEmpty_eq_false_iff] at unfinished
  obtain ⟨slot, slots, queue⟩ := List.exists_cons_of_ne_nil unfinished
  have canWrite {reply : Reply} (known : slot.reply? service.pool = some reply) :
      ∃ action, action.settles = true ∧ (service.step? action).isSome = true := by
    refine ⟨.write position, rfl, ?_⟩
    simp [step?, stepSession?, stands, Session.write?, queue, known]
  obtain ⟨reception, member, own, same⟩ :=
    sound.exists_reception stands (queue ▸ List.mem_cons_self)
  cases slot with
  | ready reply => exact canWrite rfl
  | awaiting ticket =>
    obtain ⟨job, submitted⟩ := (sound.fitting reception member).exists_task same
    cases fate : service.pool.fate ticket with
    | pending =>
      have submission : (⟨ticket, job⟩ : Task Job) ∈ history.submissions :=
        List.mem_filterMap.mpr ⟨reception, member, submitted⟩
      exact sound.exists_move submission fate
    | answered reply =>
      have known : (Slot.awaiting ticket).reply? service.pool = some reply := by
        simp [Slot.reply?, fate]
      exact canWrite known
    | dropped => exact absurd fate (sound.custody.kept ticket)
    | abandoned =>
      exact absurd fate (sound.not_abandoned member submitted (own ▸ stands) working)

/-- A session that is not closed can be read. -/
theorem isSome_read {service : Service} {position : Nat} {session : Session}
    (stands : service.sessions[position]? = some session) (reading : session.closed = none) :
    (service.step? (.read position)).isSome = true := by
  obtain ⟨⟨next, pool⟩, read⟩ := Session.exists_read reading service.pool
  simp [step?, stepSession?, stands, read]

/-- As long as a session is not over, something can happen. -/
theorem Sound.exists_action {first service : Service} {history : History}
    (sound : Sound first service history) {position : Nat} {session : Session}
    (stands : service.sessions[position]? = some session) (unfinished : session.isOver = false) :
    ∃ action, action ≠ .stop ∧ (service.step? action).isSome = true := by
  cases closed : session.closed with
  | none => exact ⟨.read position, nofun, isSome_read stands closed⟩
  | some reason =>
    have ends : session.closed.isSome = true := by rw [closed]; rfl
    cases working : session.severed with
    | true => simp [Session.isOver, ends, working] at unfinished
    | false =>
      obtain ⟨action, settles, possible⟩ :=
        sound.exists_settling stands working ends unfinished
      refine ⟨action, ?_, possible⟩
      rintro rfl
      cases settles

/-- Where nothing can happen any more, the sessions are over and all jobs have ended. -/
theorem Sound.of_stuck {first service : Service} {history : History}
    (sound : Sound first service history)
    (stuck : ∀ action, action ≠ .stop → service.step? action = none) :
    (∀ {position : Nat} {session : Session}, service.sessions[position]? = some session →
      session.isOver = true) ∧ service.pool.IsQuiet := by
  constructor
  · intro position session stands
    by_contra unfinished
    obtain ⟨action, notStop, possible⟩ :=
      sound.exists_action stands (by simpa using unfinished)
    rw [stuck action notStop] at possible
    cases possible
  · by_contra busy
    obtain ⟨action, settles, possible⟩ := exists_move_of_busy sound.custody.staffed busy
    rw [stuck action (by rintro rfl; cases settles)] at possible
    cases possible

end Service

/-- What is left to do for the task of a worker: running it and handing over its reply. -/
def Worker.work {J : Type} : Worker J → Nat
  | .idle => 0
  | .finished _ _ => 1
  | .running _ => 2

/-- What is left to do in a pool: a job that waits has to be started, too. -/
def Pool.work {J : Type} (pool : Pool J) : Nat :=
  3 * pool.queue.length + (pool.workers.map Worker.work).sum

/-- What is left to do for a session: an item has to be read, its slot has to be written, and a
job may have to be done for it. -/
def Session.work (session : Session) : Nat :=
  5 * session.incoming.length + (if session.closed.isNone then 1 else 0) + session.slots.length

/-- What is left to do in a service. -/
def Service.work (service : Service) : Nat :=
  service.pool.work + (service.sessions.toList.map Session.work).sum

/-- The sum over a list in which one member changes. -/
theorem sum_map_set {α : Type} {items : List α} {position : Nat} {old : α}
    (stands : items[position]? = some old) (new : α) (measure : α → Nat) :
    ((items.set position new).map measure).sum + measure old =
      (items.map measure).sum + measure new := by
  induction items generalizing position with
  | nil => cases stands
  | cons first items inductionHypothesis =>
    cases position with
    | zero =>
      obtain rfl : first = old := Option.some.inj stands
      simp only [List.set_cons_zero, List.map_cons, List.sum_cons]
      omega
    | succ position =>
      have others := inductionHypothesis stands
      simp only [List.set_cons_succ, List.map_cons, List.sum_cons]
      omega

namespace Pool

/-- A job that is submitted has three moves ahead of it. -/
theorem work_submit {pool after : Pool Job} {job : Job} {ticket : Nat}
    (submitted : pool.submit? job = some (ticket, after)) : after.work = pool.work + 3 := by
  obtain ⟨-, rfl⟩ := submit?_eq_some submitted
  simp only [work, List.length_append, List.length_singleton]
  omega

/-- Starting a job is one of them. -/
theorem work_start {pool after : Pool Job} {worker : Nat}
    (started : pool.start? worker = some after) : after.work < pool.work := by
  obtain ⟨task, queue, idle, waiting, rfl⟩ := start?_eq_some started
  have changed := sum_map_set idle (.running task) Worker.work
  simp only [Worker.work] at changed
  simp only [work, waiting, List.length_cons]
  omega

/-- So is its end. -/
theorem work_finish {pool after : Pool Job} {worker : Nat} {task : Task Job} {outcome : Outcome}
    (runs : pool.running? worker = some task)
    (finished : pool.finish? worker outcome = some after) : after.work < pool.work := by
  obtain rfl := finish?_eq_some runs finished
  have changed := sum_map_set (running?_eq_some runs) (.finished task.ticket outcome.reply)
    Worker.work
  simp only [Worker.work] at changed
  simp only [work]
  omega

/-- And so is handing over its reply. -/
theorem work_deliver {pool after : Pool Job} {worker : Nat}
    (delivered : pool.deliver? worker = some after) : after.work < pool.work := by
  obtain ⟨ticket, reply, stands, rfl⟩ := deliver?_eq_some delivered
  have changed := sum_map_set stands .idle Worker.work
  simp only [Worker.work] at changed
  simp only [work, settle]
  omega

end Pool

/-- Giving up a slot leaves the workers what they have to do. -/
theorem Slot.work_lose (slot : Slot) (pool : Pool Job) : (slot.lose pool).work = pool.work := by
  cases slot <;> rfl

/-- So does giving up all slots of a session. -/
theorem Slot.work_loseAll (slots : List Slot) (pool : Pool Job) :
    (slots.foldl Slot.lose pool).work = pool.work := by
  induction slots generalizing pool with
  | nil => rfl
  | cons slot slots inductionHypothesis =>
    rw [List.foldl_cons, inductionHypothesis, slot.work_lose]

namespace Session

/-- An item brings at most one job. -/
theorem work_slotFor {pool after : Pool Job} {item : Inbound} {slot : Slot}
    {closed : Option CloseReason} (given : slotFor pool item = (slot, closed, after)) :
    after.work ≤ pool.work + 3 := by
  obtain ⟨reply, -, -, -, rfl⟩ | ⟨reply, -, -, -, rfl⟩ | ⟨job, ticket, -, -, -, submitted⟩ |
    ⟨job, -, -, -, -, rfl⟩ := slotFor_cases given
  · exact Nat.le_add_right _ _
  · exact Nat.le_add_right _ _
  · exact Nat.le_of_eq (Pool.work_submit submitted)
  · exact Nat.le_add_right _ _

/-- An item that has been read needs less work than one that has not. -/
theorem work_read {session after : Session} {pool later : Pool Job}
    (possible : session.read? pool = some (after, later)) :
    after.work + later.work < session.work + pool.work := by
  obtain ⟨reading, ⟨nothing, rfl, rfl⟩ | ⟨item, incoming, slot, closed, between, items, given,
    changed⟩⟩ := read?_eq_some possible
  · simp only [work, reading, nothing]
    simp
  · have less := work_slotFor given
    have atMost : (if closed.isNone then 1 else 0) ≤ 1 := by split <;> omega
    obtain ⟨-, rfl, rfl⟩ | ⟨-, rfl, rfl⟩ := changed
    · simp only [work, items, reading, Option.isNone_none, if_true, List.length_cons,
        Slot.work_lose]
      omega
    · simp only [work, items, reading, Option.isNone_none, if_true, List.length_cons,
        List.length_append, List.length_nil]
      omega

/-- A session that writes a reply has less left to do, and gives the workers nothing. -/
theorem work_write {session after : Session} {pool later : Pool Job}
    (possible : session.write? pool = some (after, later)) :
    after.work + later.work < session.work + pool.work := by
  obtain ⟨slot, slots, reply, queue, -, ⟨-, rfl, rfl⟩ | ⟨-, rfl, rfl⟩⟩ := write?_eq_some possible
  · simp only [work, queue, List.length_cons]
    omega
  · simp only [work, queue, List.length_cons, List.length_nil]
    have same := Slot.work_loseAll (slot :: slots) pool
    omega

end Session

namespace Service

/-- Every action but a stop leaves less to do. -/
theorem work_step {service after : Service} {action : Action}
    (possible : service.step? action = some after) (live : action ≠ .stop) :
    after.work < service.work := by
  have session {position : Nat} {step : Session → Pool Job → Option (Session × Pool Job)}
      (less : ∀ {session next pool later}, step session pool = some (next, later) →
        next.work + later.work < session.work + pool.work)
      (moved : service.stepSession? position step = some after) : after.work < service.work := by
    obtain ⟨session, next, pool, stands, stepped, rfl⟩ := stepSession?_eq_some moved
    have shrinks := less stepped
    have changed := sum_map_set (by rwa [← Array.getElem?_toList] at stands) next Session.work
    simp only [work, Array.toList_setIfInBounds]
    omega
  cases action with
  | read position => exact session Session.work_read possible
  | write position => exact session Session.work_write possible
  | start worker =>
    obtain ⟨pool, started, rfl⟩ := Option.map_eq_some_iff.mp possible
    exact Nat.add_lt_add_right (Pool.work_start started) _
  | execute worker elapsed =>
    obtain ⟨task, pool, runs, finished, rfl⟩ := execute?_eq_some possible
    exact Nat.add_lt_add_right (Pool.work_finish runs finished) _
  | deliver worker =>
    obtain ⟨pool, delivered, rfl⟩ := Option.map_eq_some_iff.mp possible
    exact Nat.add_lt_add_right (Pool.work_deliver delivered) _
  | stop => exact absurd rfl live

/-- A run takes no more actions than there is work to do. -/
theorem length_run {service after : Service} {actions : List Action}
    (ran : service.run? actions = some after) (live : .stop ∉ actions) :
    actions.length + after.work ≤ service.work := by
  induction actions generalizing service with
  | nil =>
    obtain rfl := Option.some.inj ran
    simp
  | cons action actions inductionHypothesis =>
    obtain ⟨next, stepped, others⟩ := Option.bind_eq_some_iff.mp ran
    obtain ⟨notStop, liveOthers⟩ := not_or.mp (mt List.mem_cons.mpr live)
    have rest := inductionHypothesis others liveOthers
    have less := work_step stepped (Ne.symm notStop)
    simp only [List.length_cons]
    omega

end Service

end ParamSweep
