import ParamSweep.Proofs.Service.Order

/-!
# How sessions close

Whether a session closes because of an item or because its connection ended is settled by what the
connection brings in. No action of any part of the service changes this reason, not even that the
writer ends or that the pool stops.

A writer that manages a number of replies writes no more than these, and it has written all of them
when it ends.
-/

namespace ParamSweep

namespace Session

/-- Why a session closes that takes these items, unless one of them ends it, before its connection
ends for the given reason. -/
def closing (items : List Inbound) (ending : CloseReason) : CloseReason :=
  if items.any quits then .quit else ending

/-- Why a session is closed, or why it will be. -/
def reason (session : Session) : CloseReason :=
  session.closed.getD (closing session.incoming session.ending)

/-- What a reader or a writer may leave of a session. -/
def Moves (session next : Session) : Prop :=
  ∃ pool later, session.read? pool = some (next, later) ∨ session.write? pool = some (next, later)

/-- An item ends a session exactly if it quits, whether or not the pool has stopped. -/
theorem closed_slotFor {pool after : Pool Job} {item : Inbound} {slot : Slot}
    {closed : Option CloseReason} (given : slotFor pool item = (slot, closed, after)) :
    closed = if quits item then some .quit else none := by
  obtain ⟨reply, known, -, rfl, -⟩ | ⟨reply, known, -, rfl, -⟩ | ⟨job, ticket, known, -, rfl, -⟩ |
    ⟨job, known, -, -, rfl, -⟩ := slotFor_cases given <;> simp [quits, known]

/-- Taking an item does not change why the session is going to close. -/
theorem reason_read {session next : Session} {pool later : Pool Job}
    (possible : session.read? pool = some (next, later)) : next.reason = session.reason := by
  obtain ⟨reading, ⟨nothing, rfl, -⟩ | ⟨item, incoming, slot, closed, between, items, given,
    changed⟩⟩ := read?_eq_some possible
  · simp [reason, reading, nothing, closing]
  · have same : next.closed = closed ∧ next.incoming = incoming ∧ next.ending = session.ending := by
      obtain ⟨-, rfl, -⟩ | ⟨-, rfl, -⟩ := changed <;> exact ⟨rfl, rfl, rfl⟩
    obtain ⟨closes, rest, ending⟩ := same
    rw [reason, reason, closes, rest, ending, reading, items, closed_slotFor given]
    cases known : quits item <;> simp [closing, known]

/-- Nothing that a session does changes it. -/
theorem Moves.reason_eq {session next : Session} (moves : session.Moves next) :
    next.reason = session.reason := by
  obtain ⟨pool, later, read | written⟩ := moves
  · exact reason_read read
  · obtain ⟨slot, slots, reply, -, -, ⟨-, rfl, -⟩ | ⟨-, rfl, -⟩⟩ := write?_eq_some written <;> rfl

/-- A session that is closed stays closed: its reader is done, and a writer closes nothing. -/
theorem Moves.isSome_closed {session next : Session} (moves : session.Moves next)
    (closed : session.closed.isSome = true) : next.closed.isSome = true := by
  obtain ⟨pool, later, read | written⟩ := moves
  · obtain ⟨reading, -⟩ := read?_eq_some read
    simp [reading] at closed
  · obtain ⟨slot, slots, reply, -, -, ⟨-, rfl, -⟩ | ⟨-, rfl, -⟩⟩ := write?_eq_some written <;>
      exact closed

/-- What is settled about a session that is closed. -/
theorem closed_eq {session : Session} (closed : session.closed.isSome = true) :
    session.closed = some session.reason := by
  obtain ⟨reason, known⟩ := Option.isSome_iff_exists.mp closed
  rw [Session.reason, known, Option.getD_some]

/-- A writer has not written more than it manages, and if it has ended then not less either. -/
def WithinCapacity (session : Session) : Prop :=
  ∀ most, session.capacity = some most →
    session.written.size ≤ most ∧ (session.severed = true → session.written.size = most)

/-- A session that has written nothing has written no more than its writer manages. -/
theorem Fresh.withinCapacity {session : Session} (fresh : session.Fresh) :
    session.WithinCapacity := by
  intro most _
  rw [fresh.written, fresh.severed]
  exact ⟨Nat.zero_le _, nofun⟩

/-- It never writes more. -/
theorem Moves.withinCapacity {session next : Session} (moves : session.Moves next)
    (within : session.WithinCapacity) : next.WithinCapacity := by
  obtain ⟨pool, later, read | written⟩ := moves
  · obtain ⟨-, ⟨-, rfl, -⟩ | ⟨-, -, -, -, -, -, -, ⟨-, rfl, -⟩ | ⟨-, rfl, -⟩⟩⟩ :=
      read?_eq_some read <;> exact within
  · obtain ⟨slot, slots, reply, queue, -, ⟨room, rfl, -⟩ | ⟨full, rfl, -⟩⟩ :=
      write?_eq_some written
    · intro most known
      obtain ⟨-, whole⟩ := within most known
      have capacity : session.capacity = some most := known
      have less : session.written.size < most := by simpa [hasRoom, capacity] using room
      refine ⟨Nat.le_trans (Nat.le_of_eq (Array.size_push _)) less, fun severed => ?_⟩
      exact absurd (whole severed) (Nat.ne_of_lt less)
    · intro most known
      obtain ⟨atMost, -⟩ := within most known
      have capacity : session.capacity = some most := known
      have notLess : most ≤ session.written.size := by simpa [hasRoom, capacity] using full
      exact ⟨atMost, fun _ => Nat.le_antisymm atMost notLess⟩

end Session

namespace Service

/-- What an action leaves of a session: the session itself, or what its reader or writer leaves. -/
theorem session_of_step {service after : Service} {action : Action}
    (possible : service.step? action = some after) {position : Nat} {session : Session}
    (stands : after.sessions[position]? = some session) :
    ∃ before, service.sessions[position]? = some before ∧
      (session = before ∨ before.Moves session) := by
  have moved {place : Nat} {old next : Session} (known : service.sessions[place]? = some old)
      (moves : old.Moves next) (same : after.sessions = service.sessions.setIfInBounds place next) :
      ∃ before, service.sessions[position]? = some before ∧
        (session = before ∨ before.Moves session) := by
    rw [same] at stands
    obtain ⟨rfl, rfl⟩ | ⟨-, stood⟩ := getElem?_setIfInBounds_eq_some stands
    · exact ⟨old, known, .inr moves⟩
    · exact ⟨session, stood, .inl rfl⟩
  have unmoved (same : after.sessions = service.sessions) :
      ∃ before, service.sessions[position]? = some before ∧
        (session = before ∨ before.Moves session) :=
    ⟨session, same ▸ stands, .inl rfl⟩
  cases action with
  | read place =>
    obtain ⟨old, next, pool, known, stepped, same⟩ := stepSession?_eq_some possible
    exact moved known ⟨service.pool, pool, .inl stepped⟩ (by rw [same])
  | write place =>
    obtain ⟨old, next, pool, known, stepped, same⟩ := stepSession?_eq_some possible
    exact moved known ⟨service.pool, pool, .inr stepped⟩ (by rw [same])
  | start worker =>
    obtain ⟨pool, -, same⟩ := Option.map_eq_some_iff.mp possible
    exact unmoved (by rw [← same])
  | execute worker elapsed =>
    obtain ⟨task, pool, -, -, same⟩ := execute?_eq_some possible
    exact unmoved (by rw [same])
  | deliver worker =>
    obtain ⟨pool, -, same⟩ := Option.map_eq_some_iff.mp possible
    exact unmoved (by rw [← same])
  | stop =>
    obtain ⟨pool, -, same⟩ := Option.map_eq_some_iff.mp possible
    exact unmoved (by rw [← same])

/-- What readers and writers keep of a session is kept along a run. -/
theorem session_of_run {P : Session → Prop}
    (kept : ∀ {session next : Session}, session.Moves next → P session → P next)
    {service after : Service} {actions : List Action} (ran : service.run? actions = some after)
    {position : Nat} {session : Session} (stands : after.sessions[position]? = some session) :
    ∃ before, service.sessions[position]? = some before ∧ (P before → P session) := by
  induction actions generalizing service with
  | nil =>
    obtain rfl := Option.some.inj ran
    exact ⟨session, stands, id⟩
  | cons action actions inductionHypothesis =>
    obtain ⟨next, stepped, others⟩ := Option.bind_eq_some_iff.mp ran
    obtain ⟨middle, found, later⟩ := inductionHypothesis others
    obtain ⟨before, began, rfl | moves⟩ := session_of_step stepped found
    · exact ⟨middle, began, later⟩
    · exact ⟨before, began, fun holds => later (kept moves holds)⟩

/-- Why a session closes is settled when it begins. -/
theorem reason_of_run {service after : Service} {actions : List Action}
    (ran : service.run? actions = some after) {position : Nat} {before session : Session}
    (began : service.sessions[position]? = some before)
    (stands : after.sessions[position]? = some session) : session.reason = before.reason := by
  obtain ⟨own, same, kept⟩ := session_of_run (P := fun session => session.reason = before.reason)
    (fun moves => moves.reason_eq.trans) ran stands
  exact kept (by rw [Option.some.inj (same.symm.trans began)])

/-- A session that is over has closed for the reason that its connection settled when it began. -/
theorem closed_of_isOver {service after : Service} {actions : List Action}
    (ran : service.run? actions = some after) {position : Nat} {before final : Session}
    (began : service.sessions[position]? = some before) (fresh : before.Fresh)
    (stands : after.sessions[position]? = some final) (finished : final.isOver = true) :
    final.closed = some (Session.closing before.incoming before.ending) := by
  have closed : final.closed.isSome = true := (Bool.and_eq_true_iff.mp finished).1
  rw [Session.closed_eq closed, reason_of_run ran began stands, Session.reason, fresh.closed,
    Option.getD_none]

end Service

end ParamSweep
