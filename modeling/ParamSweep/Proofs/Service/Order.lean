import Mathlib.Data.List.Forall2
import Mathlib.Data.List.Nodup
import ParamSweep.Proofs.Service.History

/-!
# Replies leave in the order of their requests

The items a session has taken fall into those whose replies are written, those whose slots are
still queued, and, once its writer has ended, those that are lost. What was written are the
replies to the first of them, one each and in order; the queue holds the slots of the second in
order. Reading moves an item to the end of the second part, and writing moves one from its
front to the end of the first.

All of this is kept by every action of any part of the service as long as the pool is not
stopped: other sessions and the workers do not touch the slots of a session, and a ticket is
only ever answered with the reply of its own job.
-/

namespace ParamSweep

/-- Where the items of a session are that began as `first`, and which replies were written to
them. -/
structure Session.FollowsBy (answers : Reception → Reply → Prop) (session first : Session)
    (receptions : List Reception) : Prop where
  taken : Session.handled first.incoming = receptions.map Reception.item ++
    if session.closed.isNone then Session.handled session.incoming else []
  parts : ∃ answered queued lost, receptions = answered ++ queued ++ lost ∧
    List.Forall₂ answers answered session.written.toList ∧
    queued.map Reception.slot = session.slots ∧ (session.severed = false → lost = [])
  severed : session.severed = true → session.slots = [] ∧ session.capacity ≠ none
  capacity : session.capacity = first.capacity

/-- Where the items of a session are, if the replies are those of the items and their jobs. -/
abbrev Session.Follows (session first : Session) (receptions : List Reception)
    (executions : List (Execution Job)) : Prop :=
  session.FollowsBy (Answers executions) first receptions

/-- A session from which nothing was taken yet. -/
structure Session.Fresh (session : Session) : Prop where
  closed : session.closed = none
  slots : session.slots = []
  written : session.written = #[]
  severed : session.severed = false

/-- What a service and the history of its run have in common, if it began as `first`. -/
structure Service.Sound (first service : Service) (history : History) : Prop where
  custody : Custody service.pool history.submissions history.executions
  fitting : ∀ reception ∈ history.receptions, reception.Fits
  size : service.sessions.size = first.sessions.size
  sessions : ∀ (position : Nat) (before session : Session),
    first.sessions[position]? = some before → service.sessions[position]? = some session →
    session.Follows before (history.receptionsOf position) history.executions
  abandoned : ∀ ticket, ticket < service.pool.fates.size →
    service.pool.fate ticket = .abandoned →
    ∃ reception ∈ history.receptions, reception.slot = .awaiting ticket ∧
      ∃ session : Session,
        service.sessions[reception.session]? = some session ∧ session.severed = true

/-- Submitting a job abandons no ticket. -/
theorem Pool.abandoned_of_submit {J : Type} {pool after : Pool J} {job : J} {given ticket : Nat}
    (submitted : pool.submit? job = some (given, after)) (inside : ticket < after.fates.size)
    (abandoned : after.fate ticket = .abandoned) :
    ticket < pool.fates.size ∧ pool.fate ticket = .abandoned := by
  obtain ⟨-, rfl⟩ := Pool.submit?_eq_some submitted
  rw [Pool.fate_push] at abandoned
  split at abandoned
  · cases abandoned
  next other =>
    simp only [Array.size_push] at inside
    exact ⟨by omega, abandoned⟩

/-- Starting a job abandons no ticket. -/
theorem Pool.abandoned_of_start {J : Type} {pool after : Pool J} {worker ticket : Nat}
    (started : pool.start? worker = some after) (inside : ticket < after.fates.size)
    (abandoned : after.fate ticket = .abandoned) :
    ticket < pool.fates.size ∧ pool.fate ticket = .abandoned := by
  obtain ⟨task, queue, -, -, rfl⟩ := Pool.start?_eq_some started
  exact ⟨inside, abandoned⟩

/-- Handing over a reply abandons no ticket. -/
theorem Pool.abandoned_of_deliver {J : Type} {pool after : Pool J} {worker ticket : Nat}
    (delivered : pool.deliver? worker = some after) (inside : ticket < after.fates.size)
    (abandoned : after.fate ticket = .abandoned) :
    ticket < pool.fates.size ∧ pool.fate ticket = .abandoned := by
  obtain ⟨own, reply, -, rfl⟩ := Pool.deliver?_eq_some delivered
  rw [Pool.size_fates_settle] at inside
  rw [Pool.fate_deliver] at abandoned
  refine ⟨inside, ?_⟩
  split at abandoned
  next =>
    obtain ⟨-, now⟩ | ⟨-, before⟩ := Fate.eq_of_settle abandoned
    · cases now
    · exact before
  next => exact abandoned

namespace Session

section

variable {answers : Reception → Reply → Prop} {session first : Session}
  {receptions : List Reception}

/-- What was an answer may be one in a wider sense. -/
theorem FollowsBy.imp (follows : session.FollowsBy answers first receptions)
    {wider : Reception → Reply → Prop}
    (still : ∀ reception reply, answers reception reply → wider reception reply) :
    session.FollowsBy wider first receptions := by
  obtain ⟨answered, queued, lost, parts, replies, slots, whole⟩ := follows.parts
  exact ⟨follows.taken, ⟨answered, queued, lost, parts, replies.imp still, slots, whole⟩,
    follows.severed, follows.capacity⟩

/-- A writer that manages every reply does not end. -/
theorem FollowsBy.working (follows : session.FollowsBy answers first receptions)
    (unlimited : first.capacity = none) : session.severed = false := by
  cases severed : session.severed with
  | false => rfl
  | true => exact absurd (follows.capacity.trans unlimited) (follows.severed severed).2

/-- More runs of jobs change nothing for a session. -/
theorem Follows.mono {executions more : List (Execution Job)}
    (follows : session.Follows first receptions executions) (kept : executions ⊆ more) :
    session.Follows first receptions more :=
  follows.imp fun _ _ answers => answers.mono kept

/-- A session that has taken nothing follows itself. -/
theorem follows_fresh (fresh : session.Fresh) (executions : List (Execution Job)) :
    session.Follows session [] executions := by
  refine ⟨?_, ⟨[], [], [], rfl, ?_, ?_, fun _ => rfl⟩, ?_, rfl⟩
  · simp [fresh.closed]
  · simp [fresh.written]
  · simp [fresh.slots]
  · intro severed
    cases fresh.severed.symm.trans severed

end

/-- What the slot for an item can be. -/
theorem slotFor_cases {pool after : Pool Job} {item : Inbound} {slot : Slot}
    {closed : Option CloseReason} (given : slotFor pool item = (slot, closed, after)) :
    (∃ reply, Dispatch.ofInbound item = .reply reply ∧ slot = .ready reply ∧ closed = none ∧
        after = pool) ∨
      (∃ reply, Dispatch.ofInbound item = .quit reply ∧ slot = .ready reply ∧
        closed = some .quit ∧ after = pool) ∨
      (∃ job ticket, Dispatch.ofInbound item = .submit job ∧ slot = .awaiting ticket ∧
        closed = none ∧ pool.submit? job = some (ticket, after)) ∨
      ∃ job, Dispatch.ofInbound item = .submit job ∧ pool.accepting = false ∧
        slot = .ready (.ofFault (.service .poolClosed)) ∧ closed = none ∧ after = pool := by
  unfold slotFor at given
  split at given
  next reply known =>
    cases given
    exact .inl ⟨reply, known, rfl, rfl, rfl⟩
  next reply known =>
    cases given
    exact .inr (.inl ⟨reply, known, rfl, rfl, rfl⟩)
  next job known =>
    split at given
    next ticket later submitted =>
      cases given
      exact .inr (.inr (.inl ⟨job, ticket, known, rfl, rfl, submitted⟩))
    next refused =>
      cases given
      have stopped : pool.accepting = false := by simpa [Pool.submit?] using refused
      exact .inr (.inr (.inr ⟨job, known, stopped, rfl, rfl, rfl⟩))

/-- The slot for an item, on a pool that has not stopped. -/
theorem slotFor_spec {pool after : Pool Job} {submissions : List (Task Job)}
    {executions : List (Execution Job)} (custody : Custody pool submissions executions)
    (position : Nat) {item : Inbound} {slot : Slot} {closed : Option CloseReason}
    (given : slotFor pool item = (slot, closed, after)) :
    Custody after (submissions ++ (Reception.task? ⟨position, item, slot⟩).toList) executions ∧
      Reception.Fits ⟨position, item, slot⟩ ∧
      closed = (if quits item then some .quit else none) ∧
      (∀ ticket, ticket < after.fates.size → after.fate ticket = .abandoned →
        ticket < pool.fates.size ∧ pool.fate ticket = .abandoned) := by
  obtain ⟨reply, known, rfl, rfl, rfl⟩ | ⟨reply, known, rfl, rfl, rfl⟩ |
    ⟨job, ticket, known, rfl, rfl, submitted⟩ | ⟨job, -, stopped, -⟩ := slotFor_cases given
  · refine ⟨?_, .reply known, ?_, fun ticket inside abandoned => ⟨inside, abandoned⟩⟩
    · simpa [Reception.task?, known] using custody
    · simp [quits, known]
  · refine ⟨?_, .quit known, ?_, fun ticket inside abandoned => ⟨inside, abandoned⟩⟩
    · simpa [Reception.task?, known] using custody
    · simp [quits, known]
  · refine ⟨?_, .job known, ?_, ?_⟩
    · simpa [Reception.task?, known] using custody.submit submitted
    · simp [quits, known]
    · exact fun ticket inside abandoned => Pool.abandoned_of_submit submitted inside abandoned
  · cases stopped.symm.trans custody.accepting

/-- What it takes to read, and what it changes. -/
theorem read?_eq_some {session after : Session} {pool later : Pool Job}
    (possible : session.read? pool = some (after, later)) :
    session.closed = none ∧
      (session.incoming = [] ∧ after = { session with closed := some session.ending } ∧
          later = pool ∨
        ∃ item incoming slot closed between, session.incoming = item :: incoming ∧
          slotFor pool item = (slot, closed, between) ∧
          (session.severed = true ∧ after = { session with incoming, closed } ∧
              later = slot.lose between ∨
            session.severed = false ∧
              after = { session with incoming, closed, slots := session.slots ++ [slot] } ∧
              later = between)) := by
  unfold read? at possible
  split at possible
  next => cases possible
  next closed incoming =>
    cases possible
    exact ⟨closed, .inl ⟨incoming, rfl, rfl⟩⟩
  next item incoming closed items =>
    refine ⟨closed, .inr ⟨item, incoming, (slotFor pool item).1, (slotFor pool item).2.1,
      (slotFor pool item).2.2, items, rfl, ?_⟩⟩
    simp only at possible
    split at possible
    next severed =>
      cases possible
      exact .inl ⟨severed, rfl, rfl⟩
    next working =>
      cases possible
      exact .inr ⟨by simpa using working, rfl, rfl⟩

/-- The items handled so far, when one more has been taken. -/
theorem handled_cons {first : List Inbound} {taken : List Reception} {item : Inbound}
    {incoming : List Inbound} {closed : Option CloseReason}
    (before : handled first = taken.map Reception.item ++ handled (item :: incoming))
    (ends : closed = if quits item then some .quit else none) (position : Nat) (slot : Slot) :
    handled first = (taken ++ [(⟨position, item, slot⟩ : Reception)]).map Reception.item ++
      if closed.isNone then handled incoming else [] := by
  rw [before, ends]
  cases known : quits item <;> simp [handled, known]

/-- A session keeps its items in order when its reader takes one. -/
theorem FollowsBy.read {answers : Reception → Reply → Prop} {session first after : Session}
    {receptions : List Reception} (follows : session.FollowsBy answers first receptions)
    {position : Nat} {item : Inbound}
    {incoming : List Inbound} {slot : Slot} {closed : Option CloseReason}
    (reading : session.closed = none) (next : session.incoming = item :: incoming)
    (ends : closed = if quits item then some .quit else none)
    (changed : session.severed = true ∧ after = { session with incoming, closed } ∨
      session.severed = false ∧
        after = { session with incoming, closed, slots := session.slots ++ [slot] }) :
    after.FollowsBy answers first (receptions ++ [⟨position, item, slot⟩]) := by
  have before : handled first.incoming =
      receptions.map Reception.item ++ handled (item :: incoming) := by
    have same := follows.taken
    rwa [reading, next] at same
  have taken := handled_cons before ends position slot
  obtain ⟨answered, queued, lost, parts, replies, slots, whole⟩ := follows.parts
  obtain ⟨severed, rfl⟩ | ⟨working, rfl⟩ := changed
  · refine ⟨taken, ⟨answered, queued, lost ++ [⟨position, item, slot⟩], ?_, replies, slots, ?_⟩,
      follows.severed, follows.capacity⟩
    · rw [parts, List.append_assoc]
    · intro unsevered
      cases severed.symm.trans unsevered
  · obtain rfl := whole working
    refine ⟨taken, ⟨answered, queued ++ [⟨position, item, slot⟩], [], ?_, replies, ?_,
      fun _ => rfl⟩, ?_, follows.capacity⟩
    · rw [parts]
      simp
    · simp [slots]
    · intro severed
      cases working.symm.trans severed

/-- A session keeps its items in order when its reader finds that there are no more. -/
theorem FollowsBy.close {answers : Reception → Reply → Prop} {session first : Session}
    {receptions : List Reception} (follows : session.FollowsBy answers first receptions)
    (reading : session.closed = none) (nothing : session.incoming = []) (reason : CloseReason) :
    FollowsBy answers { session with closed := some reason } first receptions := by
  refine ⟨?_, follows.parts, follows.severed, follows.capacity⟩
  have same := follows.taken
  rw [reading, nothing] at same
  exact same

/-- What it takes to write, and what it changes. -/
theorem write?_eq_some {session after : Session} {pool later : Pool Job}
    (possible : session.write? pool = some (after, later)) :
    ∃ slot slots reply, session.slots = slot :: slots ∧ slot.reply? pool = some reply ∧
      (session.hasRoom = true ∧
          after = { session with slots, written := session.written.push reply } ∧ later = pool ∨
        session.hasRoom = false ∧ after = { session with slots := [], severed := true } ∧
          later = session.slots.foldl Slot.lose pool) := by
  unfold write? at possible
  split at possible
  next => cases possible
  next slot slots queue =>
    obtain ⟨reply, known, changed⟩ := Option.map_eq_some_iff.mp possible
    refine ⟨slot, slots, reply, queue, known, ?_⟩
    split at changed
    next room =>
      cases changed
      exact .inl ⟨room, rfl, rfl⟩
    next full =>
      cases changed
      exact .inr ⟨by simpa using full, rfl, rfl⟩

/-- A session keeps its items in order when its writer writes the next reply. -/
theorem FollowsBy.write {answers : Reception → Reply → Prop} {session first : Session}
    {receptions : List Reception} (follows : session.FollowsBy answers first receptions)
    {slot : Slot} {slots : List Slot} {reply : Reply} (queue : session.slots = slot :: slots)
    (fits : ∀ reception ∈ receptions, reception.slot = slot → answers reception reply) :
    FollowsBy answers { session with slots, written := session.written.push reply } first
      receptions := by
  obtain ⟨answered, queued, lost, parts, replies, waiting, whole⟩ := follows.parts
  rw [queue] at waiting
  obtain ⟨next, others, rfl, same, rest⟩ := List.map_eq_cons_iff.mp waiting
  have member : next ∈ receptions := by
    rw [parts]
    simp
  refine ⟨follows.taken, ⟨answered ++ [next], others, lost, ?_, ?_, rest, whole⟩, ?_,
    follows.capacity⟩
  · rw [parts]
    simp
  · rw [Array.toList_push]
    exact List.rel_append replies (.cons (fits next member same) .nil)
  · intro severed
    obtain ⟨empty, -⟩ := follows.severed severed
    cases queue.symm.trans empty

/-- A session whose writer ends loses its queue, and nothing that was written. -/
theorem FollowsBy.sever {answers : Reception → Reply → Prop} {session first : Session}
    {receptions : List Reception} (follows : session.FollowsBy answers first receptions)
    (full : session.hasRoom = false) :
    FollowsBy answers { session with slots := [], severed := true } first receptions := by
  obtain ⟨answered, queued, lost, parts, replies, -, -⟩ := follows.parts
  refine ⟨follows.taken, ⟨answered, [], queued ++ lost, ?_, replies, rfl, ?_⟩, ?_,
    follows.capacity⟩
  · rw [parts]
    simp
  · intro unsevered
    cases unsevered
  · refine fun _ => ⟨rfl, fun unlimited => ?_⟩
    have anything : session.capacity = none := unlimited
    rw [hasRoom, anything] at full
    cases full

end Session

/-- What was run under the ticket of an item is the job of the item, as tickets are given out
once. -/
theorem answers_of_ticket {receptions : List Reception} {executions : List (Execution Job)}
    (tickets : ((receptions.filterMap Reception.task?).map Task.ticket).Nodup)
    {execution : Execution Job} (ran : execution ∈ executions)
    (own : execution.task ∈ receptions.filterMap Reception.task?) {session : Nat}
    {item : Inbound} {job : Job} {ticket : Nat}
    (member : ⟨session, item, .awaiting ticket⟩ ∈ receptions)
    (submitted : Dispatch.ofInbound item = .submit job) (same : execution.ticket = ticket) :
    Answers executions ⟨session, item, .awaiting ticket⟩ execution.reply := by
  have task : (⟨ticket, job⟩ : Task Job) ∈ receptions.filterMap Reception.task? :=
    List.mem_filterMap.mpr ⟨_, member, by simp [Reception.task?, submitted]⟩
  have equal : execution.task = ⟨ticket, job⟩ := List.inj_on_of_nodup_map tickets own task same
  obtain ⟨_, _, _⟩ := execution
  cases equal
  exact .job submitted ran

/-- A reply that is known for a slot is one for the item of the slot: tickets are given out once,
so what answers a ticket is the run of the job that was submitted under it. -/
theorem Custody.answers {pool : Pool Job} {receptions : List Reception}
    {executions : List (Execution Job)}
    (custody : Custody pool (receptions.filterMap Reception.task?) executions)
    {reception : Reception} (member : reception ∈ receptions) (fits : reception.Fits)
    {reply : Reply} (known : reception.slot.reply? pool = some reply) :
    Answers executions reception reply := by
  cases fits with
  | reply given =>
    cases known
    exact .reply given
  | quit given =>
    cases known
    exact .quit given
  | @job session item job ticket submitted =>
    have answered : pool.fate ticket = .answered reply := by
      simp only [Slot.reply?] at known
      split at known
      next fate => rw [fate, Option.some.inj known]
      next fate => exact absurd fate (custody.kept ticket)
      next => cases known
      next => cases known
    obtain ⟨execution, ran, same, rfl⟩ := custody.answered ticket reply answered
    exact answers_of_ticket custody.nodup_tickets ran (custody.task_mem ran) member submitted same

/-- Somebody gives up waiting for the slot of an item. -/
theorem Custody.lose {pool : Pool Job} {submissions : List (Task Job)}
    {executions : List (Execution Job)} (custody : Custody pool submissions executions)
    (slot : Slot) : Custody (slot.lose pool) submissions executions := by
  cases slot with
  | ready reply => exact custody
  | awaiting ticket => exact custody.abandon ticket

/-- Slots that are lost take no job from the pool. -/
theorem Custody.loseAll {pool : Pool Job} {submissions : List (Task Job)}
    {executions : List (Execution Job)} (custody : Custody pool submissions executions)
    (slots : List Slot) : Custody (slots.foldl Slot.lose pool) submissions executions := by
  induction slots generalizing pool with
  | nil => exact custody
  | cons slot slots inductionHypothesis => exact inductionHypothesis (custody.lose slot)

/-- Losing a slot abandons its ticket and no other. -/
theorem Slot.abandoned_of_lose {slot : Slot} {pool : Pool Job} {ticket : Nat}
    (inside : ticket < (slot.lose pool).fates.size)
    (abandoned : (slot.lose pool).fate ticket = .abandoned) :
    slot = .awaiting ticket ∨ ticket < pool.fates.size ∧ pool.fate ticket = .abandoned := by
  cases slot with
  | ready reply => exact .inr ⟨inside, abandoned⟩
  | awaiting own =>
    simp only [lose, Pool.fate_abandon] at abandoned
    split at abandoned
    next same => exact .inl (same ▸ rfl)
    next => exact .inr ⟨by simpa [lose, Pool.abandon] using inside, abandoned⟩

/-- A ticket that is abandoned with some slots was awaited in one of them, or was abandoned before.
-/
theorem Slot.abandoned_of_loseAll {slots : List Slot} {pool : Pool Job} {ticket : Nat}
    (inside : ticket < (slots.foldl Slot.lose pool).fates.size)
    (abandoned : (slots.foldl Slot.lose pool).fate ticket = .abandoned) :
    .awaiting ticket ∈ slots ∨ ticket < pool.fates.size ∧ pool.fate ticket = .abandoned := by
  induction slots generalizing pool with
  | nil => exact .inr ⟨inside, abandoned⟩
  | cons slot slots inductionHypothesis =>
    obtain member | ⟨within, earlier⟩ := inductionHypothesis inside abandoned
    · exact .inl (List.mem_cons_of_mem _ member)
    · obtain rfl | before := slot.abandoned_of_lose within earlier
      · exact .inl List.mem_cons_self
      · exact .inr before

namespace Service

/-- What it takes for a session to move, and what it changes. -/
theorem stepSession?_eq_some {service after : Service} {position : Nat}
    {step : Session → Pool Job → Option (Session × Pool Job)}
    (possible : service.stepSession? position step = some after) :
    ∃ session next pool, service.sessions[position]? = some session ∧
      step session service.pool = some (next, pool) ∧
      after = { service with pool, sessions := service.sessions.setIfInBounds position next } := by
  simp only [stepSession?, Option.bind_eq_bind, Option.bind_eq_some_iff] at possible
  obtain ⟨session, stands, ⟨next, pool⟩, stepped, same⟩ := possible
  exact ⟨session, next, pool, stands, stepped, (Option.some.inj same).symm⟩

/-- What it takes for a job to run, and what it changes. -/
theorem execute?_eq_some {service after : Service} {worker : Nat} {elapsed : Duration}
    (possible : service.execute? worker elapsed = some after) :
    ∃ task pool, service.pool.running? worker = some task ∧
      service.pool.finish? worker (task.job.run elapsed service.timings).1 = some pool ∧
      after = { service with pool, timings := (task.job.run elapsed service.timings).2 } := by
  simp only [execute?, Option.bind_eq_bind, Option.bind_eq_some_iff] at possible
  obtain ⟨task, runs, pool, finished, same⟩ := possible
  exact ⟨task, pool, runs, finished, (Option.some.inj same).symm⟩

/-- What holds of a service and its history at the start. -/
theorem sound_fresh {service : Service} {width : Nat} (pool : service.pool = .ofWidth width)
    (fresh : ∀ session ∈ service.sessions, session.Fresh) : Sound service service {} := by
  refine ⟨pool ▸ Custody.ofWidth width, ?_, rfl, ?_, ?_⟩
  · intro reception member
    cases member
  · intro position before session began stands
    obtain rfl := Option.some.inj (began.symm.trans stands)
    exact Session.follows_fresh (fresh _ (Array.mem_of_getElem? stands)) _
  · intro ticket inside
    rw [pool] at inside
    cases inside

/-- A step of the pool alone keeps what holds, if it settles no ticket as lost. -/
theorem Sound.pool {first service : Service} {history : History}
    (sound : Sound first service history) (pool : Pool Job) (timings : Timings)
    (more : List (Execution Job))
    (custody : Custody pool history.submissions (history.executions ++ more))
    (abandoned : ∀ ticket, ticket < pool.fates.size → pool.fate ticket = .abandoned →
      ticket < service.pool.fates.size ∧ service.pool.fate ticket = .abandoned) :
    Sound first { service with pool, timings }
      { history with executions := history.executions ++ more } := by
  refine ⟨custody, sound.fitting, sound.size, ?_, ?_⟩
  · intro position before session began stands
    exact (sound.sessions position before session began stands).mono
      (List.subset_append_left _ _)
  · intro ticket inside gone
    obtain ⟨within, earlier⟩ := abandoned ticket inside gone
    exact sound.abandoned ticket within earlier

/-- What stands in a table in which one entry was changed. -/
theorem getElem?_setIfInBounds_eq_some {α : Type} {table : Array α} {position other : Nat}
    {new found : α} (stands : (table.setIfInBounds position new)[other]? = some found) :
    position = other ∧ found = new ∨ position ≠ other ∧ table[other]? = some found := by
  rw [Array.getElem?_setIfInBounds] at stands
  split at stands
  next same =>
    split at stands
    next => exact .inl ⟨same, (Option.some.inj stands).symm⟩
    next => cases stands
  next apart => exact .inr ⟨apart, stands⟩

/-- What holds of every session holds after a step of one of them, if it does so for that one. -/
theorem followsBy_of_step {answers : Reception → Reply → Prop} {first service : Service}
    {history : History}
    (sessions : ∀ (position : Nat) (before session : Session),
      first.sessions[position]? = some before → service.sessions[position]? = some session →
      session.FollowsBy answers before (history.receptionsOf position))
    {position : Nat} {session : Session} (stands : service.sessions[position]? = some session)
    {next : Session} {more : List Reception}
    (own : ∀ reception ∈ more, reception.session = position)
    (follows : ∀ before, session.FollowsBy answers before (history.receptionsOf position) →
      next.FollowsBy answers before (history.receptionsOf position ++ more))
    {other : Nat} {before after : Session} (began : first.sessions[other]? = some before)
    (found : (service.sessions.setIfInBounds position next)[other]? = some after) :
    after.FollowsBy answers before
      (History.receptionsOf { history with receptions := history.receptions ++ more } other) := by
  rw [history.receptionsOf_append own]
  obtain ⟨rfl, rfl⟩ | ⟨apart, found⟩ := getElem?_setIfInBounds_eq_some found
  · rw [if_pos rfl]
    exact follows before (sessions position before session began stands)
  · rw [if_neg apart, List.append_nil]
    exact sessions other before after began found

/-- A step of one session keeps what holds, if it does so for that session, and if the tickets
that it abandons are its own and nobody waits for them any more. -/
theorem Sound.session {first service : Service} {history : History}
    (sound : Sound first service history) {position : Nat} {session : Session}
    (stands : service.sessions[position]? = some session) (next : Session)
    (more : List Reception) {pool : Pool Job}
    (custody : Custody pool ((history.receptions ++ more).filterMap Reception.task?)
      history.executions)
    (fitting : ∀ reception ∈ more, reception.Fits)
    (own : ∀ reception ∈ more, reception.session = position)
    (follows : ∀ before,
      session.Follows before (history.receptionsOf position) history.executions →
      next.Follows before (history.receptionsOf position ++ more) history.executions)
    (severed : session.severed = true → next.severed = true)
    (abandoned : ∀ ticket, ticket < pool.fates.size → pool.fate ticket = .abandoned →
      ticket < service.pool.fates.size ∧ service.pool.fate ticket = .abandoned ∨
        next.severed = true ∧ ∃ reception ∈ history.receptions ++ more,
          reception.session = position ∧ reception.slot = .awaiting ticket) :
    Sound first { service with pool, sessions := service.sessions.setIfInBounds position next }
      { history with receptions := history.receptions ++ more } := by
  have place : position < service.sessions.size := (Array.getElem?_eq_some_iff.mp stands).1
  have sessionsAfter (other : Nat) :
      (service.sessions.setIfInBounds position next)[other]? =
        if position = other then some next else service.sessions[other]? := by
    simp only [Array.getElem?_setIfInBounds, place, if_true]
  refine ⟨custody, ?_, ?_, ?_, ?_⟩
  · intro reception member
    rcases List.mem_append.mp member with old | new
    · exact sound.fitting reception old
    · exact fitting reception new
  · rw [Array.size_setIfInBounds, sound.size]
  · intro other before after began found
    exact followsBy_of_step sound.sessions stands own follows began found
  · intro ticket inside gone
    obtain ⟨within, earlier⟩ | ⟨ended, reception, member, here, waits⟩ :=
      abandoned ticket inside gone
    · -- Whoever abandoned the ticket before has ended and has not come back.
      obtain ⟨reception, member, waits, owner, ownerStands, ownerEnded⟩ :=
        sound.abandoned ticket within earlier
      refine ⟨reception, List.mem_append_left _ member, waits, ?_⟩
      rw [sessionsAfter]
      split
      next same =>
        refine ⟨next, rfl, severed ?_⟩
        rw [← same, stands] at ownerStands
        rwa [Option.some.inj ownerStands]
      next => exact ⟨owner, ownerStands, ownerEnded⟩
    · refine ⟨reception, member, waits, next, ?_, ended⟩
      rw [sessionsAfter, if_pos here.symm]

/-- Reading keeps what holds. -/
theorem Sound.read {first service after : Service} {history : History} {position : Nat}
    (sound : Sound first service history)
    (possible : service.step? (.read position) = some after) :
    Sound first after (history.after service (.read position)) := by
  obtain ⟨session, next, pool, stands, stepped, rfl⟩ := stepSession?_eq_some possible
  obtain ⟨reading, changed⟩ := Session.read?_eq_some stepped
  obtain ⟨nothing, rfl, rfl⟩ | ⟨item, incoming, slot, closed, between, items, given, changed⟩ :=
    changed
  · -- Nothing is left to come in, so the session closes and takes nothing.
    have taken : service.reception? (.read position) = none := by
      simp [reception?, stands, reading, nothing]
    have kept := sound.session stands { session with closed := some session.ending } []
      (by simpa [History.submissions] using sound.custody) (by simp) (by simp)
      (fun before follows => by
        simpa using follows.close reading nothing session.ending) id
      (fun ticket inside gone => .inl ⟨inside, gone⟩)
    simpa [History.after, taken, execution?] using kept
  · have taken : service.reception? (.read position) = some ⟨position, item, slot⟩ := by
      simp [reception?, stands, reading, items, given]
    obtain ⟨custody, fits, ends, fates⟩ :=
      Session.slotFor_spec sound.custody position given
    have submissions := history.filterMap_task?_concat ⟨position, item, slot⟩
    have one : ∀ reception ∈ [(⟨position, item, slot⟩ : Reception)],
        reception = ⟨position, item, slot⟩ := fun _ => List.mem_singleton.mp
    rw [History.after, taken]
    obtain ⟨severed, rfl, rfl⟩ | ⟨working, rfl, rfl⟩ := changed
    · -- The writer has ended, so the slot is lost as soon as it is made.
      have lost (ticket : Nat) (inside : ticket < (slot.lose between).fates.size)
          (gone : (slot.lose between).fate ticket = .abandoned) :
          ticket < service.pool.fates.size ∧ service.pool.fate ticket = .abandoned ∨
            session.severed = true ∧
              ∃ reception ∈ history.receptions ++ [(⟨position, item, slot⟩ : Reception)],
                reception.session = position ∧ reception.slot = .awaiting ticket := by
        obtain rfl | ⟨within, earlier⟩ := slot.abandoned_of_lose inside gone
        · exact .inr ⟨severed, _, List.mem_append_right _ List.mem_cons_self, rfl, rfl⟩
        · exact .inl (fates ticket within earlier)
      have kept := sound.session stands { session with incoming, closed }
        [⟨position, item, slot⟩] (submissions ▸ custody.lose slot)
        (fun reception new => one reception new ▸ fits)
        (fun reception new => one reception new ▸ rfl)
        (fun before follows => follows.read reading items ends (.inl ⟨severed, rfl⟩)) id lost
      simpa [execution?] using kept
    · have kept := sound.session stands
        { session with incoming, closed, slots := session.slots ++ [slot] }
        [⟨position, item, slot⟩] (submissions ▸ custody)
        (fun reception new => one reception new ▸ fits)
        (fun reception new => one reception new ▸ rfl)
        (fun before follows => follows.read reading items ends (.inr ⟨working, rfl⟩)) id
        (fun ticket inside gone => .inl (fates ticket inside gone))
      simpa [execution?] using kept

/-- A slot in the queue of a session is that of an item its reader took, whatever the replies to the
items are. -/
theorem exists_reception_of_slot {answers : Reception → Reply → Prop} {first service : Service}
    {history : History} (size : service.sessions.size = first.sessions.size)
    (sessions : ∀ (position : Nat) (before session : Session),
      first.sessions[position]? = some before → service.sessions[position]? = some session →
      session.FollowsBy answers before (history.receptionsOf position))
    {position : Nat} {session : Session} (stands : service.sessions[position]? = some session)
    {slot : Slot} (queued : slot ∈ session.slots) :
    ∃ reception ∈ history.receptions, reception.session = position ∧ reception.slot = slot := by
  have place : position < first.sessions.size := by
    rw [← size]
    exact (Array.getElem?_eq_some_iff.mp stands).1
  have follows := sessions position _ session (Array.getElem?_eq_getElem place) stands
  obtain ⟨answered, waiting, lost, parts, -, slots, -⟩ := follows.parts
  obtain ⟨reception, member, same⟩ := List.mem_map.mp (slots ▸ queued)
  have taken : reception ∈ history.receptionsOf position := by
    rw [parts]
    simp [member]
  obtain ⟨inside, own⟩ := List.mem_filter.mp taken
  exact ⟨reception, inside, by simpa using own, same⟩

/-- A slot that waits for its reply was made for an item that its session took. -/
theorem Sound.exists_reception {first service : Service} {history : History}
    (sound : Sound first service history) {position : Nat} {session : Session}
    (stands : service.sessions[position]? = some session) {slot : Slot}
    (queued : slot ∈ session.slots) :
    ∃ reception ∈ history.receptions, reception.session = position ∧ reception.slot = slot :=
  exists_reception_of_slot sound.size sound.sessions stands queued

/-- Writing keeps what holds. -/
theorem Sound.write {first service after : Service} {history : History} {position : Nat}
    (sound : Sound first service history)
    (possible : service.step? (.write position) = some after) :
    Sound first after (history.after service (.write position)) := by
  obtain ⟨session, next, pool, stands, stepped, rfl⟩ := stepSession?_eq_some possible
  obtain ⟨slot, slots, reply, queue, known, changed⟩ := Session.write?_eq_some stepped
  have custody : Custody service.pool (history.receptions.filterMap Reception.task?)
      history.executions := sound.custody
  have answers : ∀ reception ∈ history.receptionsOf position, reception.slot = slot →
      Answers history.executions reception reply := by
    intro reception member same
    have inside : reception ∈ history.receptions := List.mem_of_mem_filter member
    exact custody.answers inside (sound.fitting reception inside) (same ▸ known)
  obtain ⟨room, rfl, rfl⟩ | ⟨full, rfl, rfl⟩ := changed
  · have kept := sound.session stands
      { session with slots, written := session.written.push reply } []
      (by simpa using custody) (by simp) (by simp)
      (fun before follows => by simpa using follows.write queue answers) id
      (fun ticket inside gone => .inl ⟨inside, gone⟩)
    simpa [History.after, reception?, execution?] using kept
  · have lost (ticket : Nat)
        (inside : ticket < (session.slots.foldl Slot.lose service.pool).fates.size)
        (gone : (session.slots.foldl Slot.lose service.pool).fate ticket = .abandoned) :
        ticket < service.pool.fates.size ∧ service.pool.fate ticket = .abandoned ∨
          true = true ∧ ∃ reception ∈ history.receptions ++ [],
            reception.session = position ∧ reception.slot = .awaiting ticket := by
      obtain member | before := Slot.abandoned_of_loseAll inside gone
      · obtain ⟨reception, taken, own, waits⟩ := sound.exists_reception stands member
        exact .inr ⟨rfl, reception, List.mem_append_left _ taken, own, waits⟩
      · exact .inl before
    have kept := sound.session stands { session with slots := [], severed := true } []
      (by simpa using custody.loseAll session.slots) (by simp) (by simp)
      (fun before follows => by simpa using follows.sever full) (fun _ => rfl) lost
    simpa [History.after, reception?, execution?] using kept

/-- Every action but a stop keeps what holds. -/
theorem Sound.step {first service after : Service} {history : History} {action : Action}
    (sound : Sound first service history) (possible : service.step? action = some after)
    (live : action ≠ .stop) : Sound first after (history.after service action) := by
  cases action with
  | read position => exact sound.read possible
  | write position => exact sound.write possible
  | start worker =>
    obtain ⟨pool, started, rfl⟩ := Option.map_eq_some_iff.mp possible
    have custody := sound.custody.start started
    have kept := sound.pool pool service.timings [] (by simpa using custody)
      (fun ticket inside gone => Pool.abandoned_of_start started inside gone)
    simpa [History.after, reception?, execution?] using kept
  | execute worker elapsed =>
    obtain ⟨task, pool, runs, finished, rfl⟩ := execute?_eq_some possible
    have custody := sound.custody.finish runs finished
    obtain rfl := Pool.finish?_eq_some runs finished
    have kept := sound.pool _ (task.job.run elapsed service.timings).2 _ custody
      (fun ticket inside gone => ⟨inside, gone⟩)
    simpa [History.after, reception?, execution?, runs] using kept
  | deliver worker =>
    obtain ⟨pool, delivered, rfl⟩ := Option.map_eq_some_iff.mp possible
    have custody := sound.custody.deliver delivered
    have kept := sound.pool pool service.timings [] (by simpa using custody)
      (fun ticket inside gone => Pool.abandoned_of_deliver delivered inside gone)
    simpa [History.after, reception?, execution?] using kept
  | stop => exact absurd rfl live

/-- What holds at the start of a run holds at its end. -/
theorem Sound.run {first service after : Service} {history : History} {actions : List Action}
    (sound : Sound first service history) (ran : service.run? actions = some after)
    (live : .stop ∉ actions) : Sound first after (service.historyFrom history actions) := by
  induction actions generalizing service history with
  | nil =>
    obtain rfl := Option.some.inj ran
    exact sound
  | cons action actions inductionHypothesis =>
    obtain ⟨next, stepped, others⟩ := Option.bind_eq_some_iff.mp ran
    obtain ⟨notStop, liveOthers⟩ := not_or.mp (mt List.mem_cons.mpr live)
    have later := inductionHypothesis (sound.step stepped (Ne.symm notStop)) others liveOthers
    simpa [historyFrom, stepped] using later

end Service

end ParamSweep
