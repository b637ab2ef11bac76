import ParamSweep.Proofs.Service.Progress

/-!
# Every item is answered once and in order

A session on a live pool, whose writer can write everything, is over after finitely many actions
of the service. It has then written one reply for each item up to the first that ends it, or for
all items, in their order; each reply is the one of its own item. The parts of the service may
interleave in any way: the argument is that of the order of replies, and that a session which is
over has no slot left.
-/

namespace ParamSweep

namespace Session

/-- A connection that was just made. -/
theorem fresh_ofIntake (intake : Intake) (capacity : Option Nat) :
    (ofIntake intake capacity).Fresh :=
  ⟨rfl, rfl, rfl, rfl⟩

/-- A session for what is to come in has done nothing yet. -/
theorem fresh_of_mem_singleton {intake : Intake} {capacity : Option Nat} :
    ∀ session ∈ #[ofIntake intake capacity], session.Fresh := by
  intro session member
  obtain rfl := Array.mem_singleton.mp member
  exact fresh_ofIntake intake capacity

/-- A session without an item that ends it takes all items. -/
theorem handled_eq_self {items : List Inbound} (goesOn : ∀ item ∈ items, quits item = false) :
    handled items = items := by
  induction items with
  | nil => rfl
  | cons item items inductionHypothesis =>
    obtain ⟨here, behind⟩ := List.forall_mem_cons.mp goesOn
    rw [handled, here, inductionHypothesis behind]
    rfl

/-- A session takes the first item that ends it, and none behind it. -/
theorem handled_append {before : List Inbound} {item : Inbound}
    (goesOn : ∀ other ∈ before, quits other = false) (ends : quits item = true)
    (behind : List Inbound) : handled (before ++ item :: behind) = before ++ [item] := by
  induction before with
  | nil => simp [handled, ends]
  | cons other before inductionHypothesis =>
    obtain ⟨here, others⟩ := List.forall_mem_cons.mp goesOn
    have rest := inductionHypothesis others
    simp only [List.cons_append, handled, here, rest]
    rfl

/-- What was written in a place answers the item that was taken in that place. -/
theorem FollowsBy.reception_of_written {answers : Reception → Reply → Prop}
    {session first : Session} {receptions : List Reception}
    (follows : session.FollowsBy answers first receptions) {place : Nat} {reply : Reply}
    (wrote : session.written[place]? = some reply) :
    ∃ reception, receptions[place]? = some reception ∧ answers reception reply := by
  obtain ⟨answered, queued, lost, parts, replies, -, -⟩ := follows.parts
  rw [← Array.getElem?_toList] at wrote
  obtain ⟨inside, rfl⟩ := List.getElem?_eq_some_iff.mp wrote
  have taken : place < answered.length := replies.length_eq ▸ inside
  refine ⟨answered[place], ?_, replies.get taken inside⟩
  rw [parts, List.append_assoc, List.getElem?_append_left taken,
    List.getElem?_eq_getElem taken]

/-- What was written in a place answers the item that the session takes in that place. -/
theorem FollowsBy.item_of_written {answers : Reception → Reply → Prop} {session first : Session}
    {receptions : List Reception} (follows : session.FollowsBy answers first receptions)
    {place : Nat} {reply : Reply} (wrote : session.written[place]? = some reply) :
    ∃ reception, (handled first.incoming)[place]? = some reception.item ∧
      answers reception reply := by
  obtain ⟨reception, taken, answered⟩ := follows.reception_of_written wrote
  refine ⟨reception, ?_, answered⟩
  rw [follows.taken]
  refine List.getElem?_append_left ?_ |>.trans ?_
  · simpa using (List.getElem?_eq_some_iff.mp taken).1
  · rw [List.getElem?_map, taken, Option.map_some]

/-- Nothing is missing from what a session wrote that is over and whose writer did not end. -/
theorem FollowsBy.of_isOver {answers : Reception → Reply → Prop} {session first : Session}
    {receptions : List Reception} (follows : session.FollowsBy answers first receptions)
    (working : session.severed = false) (finished : session.isOver = true) :
    receptions.map Reception.item = handled first.incoming ∧
      List.Forall₂ answers receptions session.written.toList := by
  have closedEmpty : session.closed.isSome = true ∧ session.slots = [] := by
    simpa [isOver, working] using finished
  obtain ⟨closed, empty⟩ := closedEmpty
  obtain ⟨answered, queued, lost, parts, replies, slots, whole⟩ := follows.parts
  have nothingQueued : queued = [] := by
    rw [empty] at slots
    exact List.map_eq_nil_iff.mp slots
  have nothingLost : lost = [] := whole working
  constructor
  · have reading : session.closed.isNone = false := by
      rw [← Option.not_isSome, closed]
      rfl
    have taken := follows.taken
    simp only [reading, Bool.false_eq_true, if_false, List.append_nil] at taken
    exact taken.symm
  · rw [parts, nothingQueued, nothingLost, List.append_nil, List.append_nil]
    exact replies

end Session

/-- The only reply that ends a session is the acknowledgement. -/
theorem Dispatch.eq_acknowledged_of_quit {item : Inbound} {reply : Reply}
    (ends : ofInbound item = .quit reply) : reply = .acknowledged := by
  cases item with
  | line text =>
    simp only [ofInbound, ofLine] at ends
    split at ends
    next =>
      cases ends
      rfl
    next => split at ends <;> cases ends
    next => split at ends <;> cases ends
    next => cases ends
  | overlong => cases ends
  | notText => cases ends

namespace Answers

variable {executions : List (Execution Job)}

/-- The reply to an item that ends a session. -/
theorem eq_acknowledged {reception : Reception} {reply : Reply}
    (answers : Answers executions reception reply)
    (ends : Session.quits reception.item = true) : reply = .acknowledged := by
  cases answers with
  | reply known => simp [Session.quits, known] at ends
  | quit known => exact Dispatch.eq_acknowledged_of_quit known
  | job submitted => simp [Session.quits, submitted] at ends

/-- The last reply to items the last of which ends the session. -/
theorem getLast?_eq_acknowledged {receptions : List Reception} {replies : List Reply}
    {before : List Inbound} {item : Inbound}
    (answers : List.Forall₂ (Answers executions) receptions replies)
    (items : receptions.map Reception.item = before ++ [item])
    (ends : Session.quits item = true) : replies.getLast? = some .acknowledged := by
  obtain ⟨earlier, last, rfl, -, single⟩ := List.map_eq_append_iff.mp items
  obtain ⟨reception, rfl, rfl⟩ := List.map_eq_singleton_iff.mp single
  have backwards := List.forall₂_reverse_iff.mpr answers
  rw [List.reverse_append, List.reverse_singleton, List.singleton_append] at backwards
  obtain ⟨reply, others, answer, -, same⟩ := List.forall₂_cons_left_iff.mp backwards
  rw [← List.head?_reverse, same, answer.eq_acknowledged ends]
  rfl

end Answers

namespace Service

/-- What a worker notes as the reply of a job is what the job comes to. -/
theorem reply_of_execution {service : Service} {action : Action} {execution : Execution Job}
    (ran : service.execution? action = some execution) :
    ∃ elapsed timings, execution.reply = (execution.job.run elapsed timings).1.reply := by
  cases action with
  | execute worker elapsed =>
    obtain ⟨task, -, rfl⟩ := Option.map_eq_some_iff.mp ran
    exact ⟨elapsed, service.timings, rfl⟩
  | read position => cases ran
  | write position => cases ran
  | start worker => cases ran
  | deliver worker => cases ran
  | stop => cases ran

/-- The same of everything in the history of a run, if it held of the history before. -/
theorem reply_of_mem_executions {history : History} (service : Service) (actions : List Action)
    (before : ∀ execution ∈ history.executions,
      ∃ elapsed timings, execution.reply = (execution.job.run elapsed timings).1.reply) :
    ∀ execution ∈ (service.historyFrom history actions).executions,
      ∃ elapsed timings, execution.reply = (execution.job.run elapsed timings).1.reply := by
  induction actions generalizing service history with
  | nil => exact before
  | cons action actions inductionHypothesis =>
    rw [historyFrom]
    split
    next next stepped =>
      apply inductionHypothesis
      intro execution member
      obtain old | new := List.mem_append.mp member
      · exact before execution old
      · exact reply_of_execution (Option.mem_toList.mp new)
    next => exact before

/-- A session that began on a live pool and whose writer manages every reply is over after
finitely many actions: a run is no longer than the work there is, and it cannot end before the
session is over. When the session is over it took the items up to the first that ends it and no
others; it wrote one reply for each of them, in order, and no more. The tickets that the pool
gave out are those of the jobs that were taken, each once; only these jobs are run, each at most
once, and each comes to its own reply. If an item ends the session it is the last one taken, and
the acknowledgement is the last reply; otherwise all items are taken.

Proof: what holds of the service and its history at the start is kept by every action. A writer
without a limit never ends, so nothing is lost; a session that is over has an empty queue, so
everything it took is written. As long as the session is not over some action is possible, and
every action leaves less work. -/
theorem replies_of_run {service after : Service} {actions : List Action} {width position : Nat}
    {session : Session} (pool : service.pool = .ofWidth width)
    (fresh : ∀ other ∈ service.sessions, other.Fresh)
    (began : service.sessions[position]? = some session) (unlimited : session.capacity = none)
    (ran : service.run? actions = some after) (live : .stop ∉ actions) :
    ∃ final, after.sessions[position]? = some final ∧ actions.length ≤ service.work ∧
      ((∀ action, action ≠ .stop → after.step? action = none) → final.isOver = true) ∧
      (final.isOver = true →
        let history := service.history actions
        let receptions := history.receptionsOf position
        receptions.map Reception.item = Session.handled session.incoming ∧
          List.Forall₂ (Answers history.executions) receptions final.written.toList ∧
          history.submissions.map Task.ticket = List.range after.pool.fates.size ∧
          (history.executions.map Execution.ticket).Nodup ∧
          (∀ execution ∈ history.executions, execution.task ∈ history.submissions ∧
            ∃ elapsed timings, execution.reply = (execution.job.run elapsed timings).1.reply) ∧
          ((∀ item ∈ session.incoming, Session.quits item = false) →
            receptions.map Reception.item = session.incoming) ∧
          (∀ before item behind, session.incoming = before ++ item :: behind →
            (∀ other ∈ before, Session.quits other = false) → Session.quits item = true →
            receptions.map Reception.item = before ++ [item] ∧
              final.written.toList.getLast? = some .acknowledged)) := by
  have sound : Sound service after (service.history actions) :=
    (sound_fresh pool fresh).run ran live
  have place : position < after.sessions.size := by
    rw [sound.size]
    exact (Array.getElem?_eq_some_iff.mp began).1
  have stands := Array.getElem?_eq_getElem place
  have follows := sound.sessions position session _ began stands
  have working : after.sessions[position].severed = false := follows.working unlimited
  refine ⟨after.sessions[position], stands, ?_, ?_, ?_⟩
  · have bound := length_run ran live
    omega
  · exact fun stuck => (sound.of_stuck stuck).1 stands
  · intro finished
    obtain ⟨items, replies⟩ := follows.of_isOver working finished
    have comesToReply : ∀ execution ∈ (service.history actions).executions,
        ∃ elapsed timings, execution.reply = (execution.job.run elapsed timings).1.reply :=
      service.reply_of_mem_executions actions nofun
    refine ⟨items, replies, sound.custody.tickets, sound.custody.nodup_executed, ?_, ?_, ?_⟩
    · exact fun execution member =>
        ⟨sound.custody.task_mem member, comesToReply execution member⟩
    · intro goesOn
      rw [items, Session.handled_eq_self goesOn]
    · intro before item behind parts goesOn ends
      have taken : ((service.history actions).receptionsOf position).map Reception.item =
          before ++ [item] := by
        rw [items, parts, Session.handled_append goesOn ends]
      exact ⟨taken, Answers.getLast?_eq_acknowledged replies taken ends⟩

/-- A client that asks for a figure, sends a line that is too long, says good bye and goes on
talking. -/
def talkative : Session :=
  .ofIntake
    { items := [(⟨0⟩, .line "STAT_REQS"), (⟨0⟩, .overlong), (⟨1⟩, .line "BYE"),
        (⟨1⟩, .line "STAT_REQS")]
      reason := .peerClosed
      closedAt := ⟨2⟩ }
    none

/-- The second of two workers runs the job only after the good bye was read. -/
def lateAnswer : List Action :=
  [.read 0, .read 0, .read 0, .start 1, .execute 1 ⟨7⟩, .deliver 1, .write 0, .write 0, .write 0]

/-- What follows the good bye is not taken. Its acknowledgement is written last, though the job
before it was run only after the good bye had been read. -/
theorem replies_of_run_lateAnswer :
    ∃ (after : Service) (final : Session),
      run? { pool := .ofWidth 2, sessions := #[talkative] } lateAnswer = some after ∧
      after.sessions[0]? = some final ∧ final.isOver = true ∧
      (History.receptionsOf (history { pool := .ofWidth 2, sessions := #[talkative] } lateAnswer)
        0).map Reception.item = [.line "STAT_REQS", .overlong, .line "BYE"] ∧
      final.written.toList.getLast? = some .acknowledged := by
  let service : Service := { pool := .ofWidth 2, sessions := #[talkative] }
  have possible : (service.run? lateAnswer).isSome = true := by decide +kernel
  obtain ⟨after, ran⟩ := Option.isSome_iff_exists.mp possible
  have fresh : ∀ other ∈ service.sessions, other.Fresh := Session.fresh_of_mem_singleton
  have began : service.sessions[0]? = some talkative := rfl
  obtain ⟨final, stands, -, -, complete⟩ :=
    replies_of_run rfl fresh began rfl ran (by decide)
  have everyOver : (service.run? lateAnswer).all (·.sessions.all Session.isOver) = true := by
    decide +kernel
  have finished : final.isOver = true := by
    rw [ran, Option.all_some, Array.all_eq_true] at everyOver
    obtain ⟨inside, rfl⟩ := Array.getElem?_eq_some_iff.mp stands
    exact everyOver 0 inside
  obtain ⟨-, -, -, -, -, -, ends⟩ := complete finished
  have bye := ends [.line "STAT_REQS", .overlong] (.line "BYE") [.line "STAT_REQS"] rfl
  have goesOn : ∀ other ∈ [Inbound.line "STAT_REQS", .overlong], Session.quits other = false := by
    intro other member
    rcases List.mem_pair.mp member with rfl | rfl <;> rfl
  exact ⟨after, final, ran, stands, finished, bye goesOn rfl⟩

end Service

end ParamSweep
