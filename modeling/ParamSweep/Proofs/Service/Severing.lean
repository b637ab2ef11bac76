import ParamSweep.Proofs.Service.Closing
import ParamSweep.Proofs.Service.Counting
import ParamSweep.Proofs.Service.Isolation
import ParamSweep.Proofs.Service.Refinement

/-!
# A writer that ends takes nothing along

The writer of a session may end while replies wait in its queue, while jobs run for them, or before
their items are even read. Whoever has asked then gets no more replies; but the reader goes on, the
jobs are submitted and run, and their times are recorded, as if nothing had happened. How the writer
is closed after its last reply plays no part: nobody waits for that.

So what is written by some moment is the beginning of what a sequential service replies, however
early the writer ends: with one worker, jobs are run in the order of their items, and the replies
that were written are those to the first items.
-/

namespace ParamSweep

section

variable {J : Type} {pool : Pool J} {submissions : List (Task J)} {executions : List (Execution J)}

/-- With one worker, the jobs that were submitted first were run first. -/
theorem Pool.InOrder.exists_first (inOrder : pool.InOrder submissions executions)
    (distinct : (submissions.map Task.ticket).Nodup) {early late : List (Task J)}
    (parts : submissions = early ++ late)
    (ran : ∀ task ∈ early, task ∈ executions.map Execution.task) :
    ∃ first others, executions = first ++ others ∧ first.map Execution.task = early := by
  have order := inOrder.order
  rw [parts, List.append_assoc] at order
  obtain ⟨more, same, left⟩ | ⟨more, same, -⟩ := List.append_eq_append_iff.mp order
  · have nothing : more = [] := by
      apply List.eq_nil_iff_forall_not_mem.mpr
      intro task member
      rw [parts, same, List.append_assoc] at distinct
      have apart := (List.nodup_append.mp (List.Nodup.of_map _ distinct)).2.2
      refine apart task (ran task ?_) task (List.mem_append_left _ member) rfl
      rw [same]
      exact List.mem_append_right _ member
    refine ⟨executions, [], (List.append_nil _).symm, ?_⟩
    rw [same, nothing, List.append_nil]
  · obtain ⟨first, others, parts, tasks, -⟩ := List.map_eq_append_iff.mp same
    exact ⟨first, others, parts, tasks⟩

/-- When all jobs have ended, all were run. -/
theorem Pool.InOrder.eq_of_isQuiet (inOrder : pool.InOrder submissions executions)
    (quiet : pool.IsQuiet) : executions.map Execution.task = submissions := by
  have order := inOrder.order
  rwa [runningTasks_eq_nil quiet.idle, quiet.queue, List.append_nil, List.append_nil] at order

end

/-- The job of an item that is one. -/
def Inbound.job? (item : Inbound) : Option Job :=
  match Dispatch.ofInbound item with
  | .submit job => some job
  | _ => none

/-- Jobs under consecutive tickets. -/
def Task.number {J : Type} (jobs : List J) : List (Task J) := jobs.mapIdx Task.mk

/-- Tasks whose tickets are consecutive are their jobs, numbered. -/
theorem Task.eq_number {J : Type} {tasks : List (Task J)}
    (tickets : tasks.map Task.ticket = List.range tasks.length) :
    tasks = number (tasks.map Task.job) := by
  apply List.ext_getElem
  · simp [number]
  · intro place inside _
    have ticket : tasks[place].ticket = place := by
      simpa [inside] using congrArg (·[place]?) tickets
    simp only [number, List.getElem_mapIdx, List.getElem_map]
    exact congrArg (Task.mk · tasks[place].job) ticket

/-- The jobs that were submitted on a live pool are those of the items. -/
theorem Reception.jobs_submitted {receptions : List Reception}
    (fitting : ∀ reception ∈ receptions, reception.Fits) :
    (receptions.filterMap task?).map Task.job = (receptions.map item).filterMap Inbound.job? := by
  rw [List.map_filterMap, List.filterMap_map]
  apply List.filterMap_congr
  intro reception member
  cases fitting reception member with
  | reply known => simp [task?, Inbound.job?, known]
  | quit known => simp [task?, Inbound.job?, known]
  | job submitted => simp [task?, Inbound.job?, submitted]

/-- The first replies are those to the first items. -/
theorem Sequential.take_answerAll (elapsed : Nat → Duration) (state : Sequential)
    (items : List Inbound) (count : Nat) :
    (state.answerAll elapsed items).1.take count =
        (state.answerAll elapsed (items.take count)).1 ∧
      (state.answerAll elapsed (items.take count)).2.timings.times.toList <+:
        (state.answerAll elapsed items).2.timings.times.toList := by
  induction items generalizing state count with
  | nil =>
    rw [List.take_nil]
    exact ⟨List.take_nil, List.prefix_refl _⟩
  | cons item items inductionHypothesis =>
    cases count with
    | zero => exact ⟨rfl, state.prefix_answerAll elapsed (item :: items)⟩
    | succ count =>
      obtain ⟨replies, times⟩ := inductionHypothesis (state.answer elapsed item).2 count
      exact ⟨congrArg ((item, (state.answer elapsed item).1) :: ·) replies, times⟩

namespace Service

/-- A service with one worker and one session, whose writer manages `capacity` replies; times may
have been recorded before. -/
def ofIntake (timings : Timings) (intake : Intake) (capacity : Option Nat) : Service :=
  { pool := .ofWidth 1, timings, sessions := #[.ofIntake intake capacity] }

/-- A run of such a service on a live pool, and its session after the run. -/
structure Hosts (timings : Timings) (intake : Intake) (capacity : Option Nat)
    (actions : List Action) (after : Service) (final : Session) : Prop where
  ran : (ofIntake timings intake capacity).run? actions = some after
  live : .stop ∉ actions
  stands : after.sessions[0]? = some final

namespace Hosts

variable {timings : Timings} {intake : Intake} {capacity : Option Nat} {actions : List Action}
  {after : Service} {final : Session}

/-- On such a service everything holds that holds along a run on one worker. -/
theorem inLine (hosts : Hosts timings intake capacity actions after final) :
    InLine (ofIntake timings intake capacity) after
      ((ofIntake timings intake capacity).history actions) := by
  have fresh : ∀ session ∈ (ofIntake timings intake capacity).sessions, session.Fresh :=
    Session.fresh_of_mem_singleton
  have began : InLine (ofIntake timings intake capacity) (ofIntake timings intake capacity) {} :=
    ⟨sound_fresh rfl fresh, .ofWidth, nofun⟩
  exact began.run hosts.ran hosts.live

/-- A run is no longer than the work there is. -/
theorem length_le (hosts : Hosts timings intake capacity actions after final) :
    actions.length ≤ (ofIntake timings intake capacity).work := by
  have bound := length_run hosts.ran hosts.live
  omega

/-- Where nothing can happen any more, the session is over and all jobs have ended. -/
theorem of_stuck (hosts : Hosts timings intake capacity actions after final)
    (stuck : ∀ action, action ≠ .stop → after.step? action = none) :
    final.isOver = true ∧ after.pool.IsQuiet := by
  obtain ⟨ended, quiet⟩ := hosts.inLine.sound.of_stuck stuck
  exact ⟨ended hosts.stands, quiet⟩

/-- All items that were taken were taken by the one session. -/
theorem receptionsOf_eq (hosts : Hosts timings intake capacity actions after final) :
    ((ofIntake timings intake capacity).history actions).receptionsOf 0 =
      ((ofIntake timings intake capacity).history actions).receptions := by
  apply List.filter_eq_self.mpr
  intro reception member
  have inside := hosts.inLine.inside reception member
  simpa [ofIntake] using inside

/-- The session follows the items that were taken. -/
theorem follows (hosts : Hosts timings intake capacity actions after final) :
    final.Follows (.ofIntake intake capacity)
      ((ofIntake timings intake capacity).history actions).receptions
      ((ofIntake timings intake capacity).history actions).executions := by
  rw [← hosts.receptionsOf_eq]
  exact hosts.inLine.sound.sessions 0 _ final rfl hosts.stands

/-- The jobs that were run are replayed by a sequential service that starts with the times recorded
before. -/
theorem replays (hosts : Hosts timings intake capacity actions after final) :
    Sequential.Replays (Action.clock actions) ⟨timings, 0⟩
      ((ofIntake timings intake capacity).history actions).executions
      ⟨after.timings, ((ofIntake timings intake capacity).history actions).executions.length⟩ :=
  replays_of_run hosts.ran

/-- What is written by some moment is the beginning of what the sequential service replies. -/
theorem answerAll_written (hosts : Hosts timings intake capacity actions after final) :
    final.written.size ≤ (Session.handled intake.inbound).length ∧
      ∃ middle, Sequential.answerAll (Action.clock actions) ⟨timings, 0⟩
          ((Session.handled intake.inbound).take final.written.size) =
        ((Session.handled intake.inbound).zip final.written.toList, middle) ∧
        middle.timings.times.toList <+: after.timings.times.toList := by
  have inLine := hosts.inLine
  have replays := hosts.replays
  obtain ⟨taken, ⟨answered, queued, lost, parts, replies, -, -⟩, -, -⟩ := hosts.follows
  generalize (ofIntake timings intake capacity).history actions = history at *
  have tasks : history.submissions = answered.filterMap Reception.task? ++
      (queued ++ lost).filterMap Reception.task? := by
    rw [History.submissions, parts, List.append_assoc, List.filterMap_append]
  have ran : ∀ task ∈ answered.filterMap Reception.task?,
      task ∈ history.executions.map Execution.task := by
    intro task member
    obtain ⟨reception, taken, submitted⟩ := List.mem_filterMap.mp member
    obtain ⟨place, inside, rfl⟩ := List.mem_iff_getElem.mp taken
    exact (replies.get inside (replies.length_eq ▸ inside)).task_mem submitted
  -- Jobs are run in their order, so the runs that were answered come before all others.
  obtain ⟨first, others, executions, order⟩ :=
    inLine.inOrder.exists_first inLine.sound.custody.nodup_tickets tasks ran
  rw [executions] at replays
  obtain ⟨middle, replayed, rest⟩ := replays.exists_middle
  have part : first ⊆ history.executions := by
    rw [executions]
    exact List.subset_append_left _ _
  have answers := replayed.answerAll inLine.sound.custody.nodup_executed part replies order
  have lengths : (answered.map Reception.item).length = final.written.size := by
    rw [List.length_map, replies.length_eq, Array.length_toList]
  have begins : answered.map Reception.item <+: Session.handled intake.inbound := by
    refine List.IsPrefix.trans ?_ ⟨_, taken.symm⟩
    rw [parts, List.append_assoc, List.map_append]
    exact List.prefix_append _ _
  obtain ⟨behind, items⟩ := begins
  rw [← items]
  refine ⟨?_, middle, ?_, ?_⟩
  · rw [List.length_append, lengths]
    exact Nat.le_add_right _ _
  · have zipped : (answered.map Reception.item ++ behind).zip (final.written.toList ++ []) =
        (answered.map Reception.item).zip final.written.toList := by
      rw [List.zip_append (lengths.trans Array.length_toList.symm), List.zip_nil_right,
        List.append_nil]
    rw [List.append_nil] at zipped
    rw [zipped, List.take_left' lengths, answers]
  · rw [rest.times]
    exact List.prefix_append _ _

/-- What was written in a place answers the item in that place, as far as the item settles its
own reply. -/
theorem untimed_written (hosts : Hosts timings intake capacity actions after final) {place : Nat}
    {reply : Reply} (wrote : final.written[place]? = some reply) :
    ∃ item, (Session.handled intake.inbound)[place]? = some item ∧
      ∀ settled, item.settled? = some settled → reply.untimed = settled := by
  obtain ⟨reception, taken, answers⟩ := hosts.follows.item_of_written wrote
  exact ⟨reception.item, taken, fun settled known =>
    answers.untimed_eq
      ((ofIntake timings intake capacity).reply_of_mem_executions actions nofun) known⟩

/-- A writer that is unlimited does not end, and any other has room for what it wrote; a session
that is over has written what there was room for. -/
theorem size_written (hosts : Hosts timings intake capacity actions after final)
    (finished : final.isOver = true) :
    final.written.size = capacity.elim (Session.handled intake.inbound).length
      (min · (Session.handled intake.inbound).length) := by
  have follows := hosts.follows
  have whole (working : final.severed = false) :
      final.written.size = (Session.handled intake.inbound).length := by
    obtain ⟨items, replies⟩ := follows.of_isOver working finished
    have lengths := congrArg List.length items
    rw [List.length_map, replies.length_eq, Array.length_toList] at lengths
    exact lengths
  have atMost := hosts.answerAll_written.1
  obtain ⟨before, began, kept⟩ := session_of_run
    (fun moves within => Session.Moves.withinCapacity moves within) hosts.ran hosts.stands
  obtain rfl : Session.ofIntake intake capacity = before := Option.some.inj began
  have within := kept (Session.fresh_ofIntake intake capacity).withinCapacity
  have unchanged : final.capacity = capacity := follows.capacity
  cases capacity with
  | none => exact whole (follows.working rfl)
  | some most =>
    obtain ⟨room, full⟩ := within most unchanged
    cases severed : final.severed with
    | false =>
      have same := whole severed
      exact same.trans (Nat.min_eq_right (same ▸ room)).symm
    | true =>
      have same := full severed
      exact same.trans (Nat.min_eq_left (same ▸ atMost)).symm

/-- When a session is over it has taken its items, whether or not they could be answered. -/
theorem items_of_isOver (hosts : Hosts timings intake capacity actions after final)
    (finished : final.isOver = true) :
    ((ofIntake timings intake capacity).history actions).receptions.map Reception.item =
      Session.handled intake.inbound := by
  have closed : final.closed.isNone = false := by
    have ends : final.closed.isSome = true := (Bool.and_eq_true_iff.mp finished).1
    rw [← Option.not_isSome, ends]
    rfl
  have taken := hosts.follows.taken
  simp only [closed, Bool.false_eq_true, if_false, List.append_nil] at taken
  exact taken.symm

/-- The jobs that were submitted are those of the items, under consecutive tickets. -/
theorem submissions_eq (hosts : Hosts timings intake capacity actions after final)
    (finished : final.isOver = true) :
    ((ofIntake timings intake capacity).history actions).submissions =
      Task.number ((Session.handled intake.inbound).filterMap Inbound.job?) := by
  have sound := hosts.inLine.sound
  have own := Reception.jobs_submitted sound.fitting
  rw [hosts.items_of_isOver finished] at own
  rw [← own]
  refine Task.eq_number ?_
  have tickets := sound.custody.tickets
  have lengths := congrArg List.length tickets
  rw [List.length_map, List.length_range] at lengths
  rw [tickets, ← lengths]

/-- When all jobs have ended, a time is recorded for each sweep among the items that succeeds. -/
theorem size_timings (hosts : Hosts timings intake capacity actions after final)
    (finished : final.isOver = true) (quiet : after.pool.IsQuiet) :
    after.timings.size = timings.size +
      (Task.number ((Session.handled intake.inbound).filterMap Inbound.job?)).countP
        (·.job.succeeds) := by
  rw [← hosts.submissions_eq finished, ← hosts.inLine.inOrder.eq_of_isQuiet quiet]
  exact hosts.replays.size

/-- Why the session closes is settled by its intake. -/
theorem closed_eq (hosts : Hosts timings intake capacity actions after final)
    (finished : final.isOver = true) :
    final.closed = some (Session.closing intake.inbound intake.reason) :=
  closed_of_isOver hosts.ran rfl (Session.fresh_ofIntake intake capacity) hosts.stands finished

/-- Of two runs over the same intake, the shorter transcript is the beginning of the longer one, as
far as it does not depend on how long jobs take. -/
theorem steady_written {otherCapacity : Option Nat} {otherActions : List Action}
    {otherAfter : Service} {otherFinal : Session}
    (hosts : Hosts timings intake capacity actions after final)
    (other : Hosts timings intake otherCapacity otherActions otherAfter otherFinal)
    (less : final.written.size ≤ otherFinal.written.size)
    (summed : after.timings.summary?.isSome = true)
    (otherSummed : otherAfter.timings.summary?.isSome = true) :
    ((Session.handled intake.inbound).zip final.written.toList).map Sequential.steady =
      (((Session.handled intake.inbound).zip otherFinal.written.toList).map
        Sequential.steady).take final.written.size := by
  obtain ⟨-, middle, answers, recorded⟩ := hosts.answerAll_written
  obtain ⟨-, otherMiddle, otherAnswers, otherRecorded⟩ := other.answerAll_written
  obtain ⟨replies, times⟩ := Sequential.take_answerAll (Action.clock otherActions) ⟨timings, 0⟩
    ((Session.handled intake.inbound).take otherFinal.written.size) final.written.size
  rw [List.take_take, Nat.min_eq_left less, otherAnswers] at replies times
  rw [← List.map_take, replies]
  have steady : (Sequential.answerAll (Action.clock actions) ⟨timings, 0⟩
        ((Session.handled intake.inbound).take final.written.size)).1.map Sequential.steady =
      (Sequential.answerAll (Action.clock otherActions) ⟨timings, 0⟩
        ((Session.handled intake.inbound).take final.written.size)).1.map Sequential.steady := by
    apply Sequential.steady_answerAll rfl
    · rw [answers]
      exact Timings.isSome_summary?_of_prefix recorded summed
    · exact Timings.isSome_summary?_of_prefix (times.trans otherRecorded) otherSummed
  rwa [answers] at steady

end Hosts

/-- What a session whose writer manages `most` replies and one whose writer manages every reply
have in common when both are over, if each was run by a worker of its own on the same intake. -/
structure Curtailed (intake : Intake) (most : Nat) (after otherAfter : Service)
    (history otherHistory : History) (final otherFinal : Session) : Prop where
  /-- Both close for the same reason. -/
  closed : ∃ reason, final.closed = some reason ∧ otherFinal.closed = some reason
  /-- Both take the items up to the first that ends the session, or all. -/
  items : history.receptions.map Reception.item = Session.handled intake.inbound ∧
    otherHistory.receptions.map Reception.item = Session.handled intake.inbound
  /-- Both submit the same jobs in the same order, and under the same tickets. -/
  submissions : history.submissions = otherHistory.submissions
  /-- The first writes as many replies as its writer manages, or all. -/
  size : final.written.size = min most otherFinal.written.size
  /-- A reply to an item that asks for no statistic is the same in both but for its time. -/
  untimed : ∀ (place : Nat) (reply otherReply : Reply), final.written[place]? = some reply →
    otherFinal.written[place]? = some otherReply →
    ∃ item, (Session.handled intake.inbound)[place]? = some item ∧
      (item.statistic? = none → reply.untimed = otherReply.untimed)
  /-- What is steady about the replies of the first are the first `most` of the other. -/
  steady : after.timings.summary?.isSome = true → otherAfter.timings.summary?.isSome = true →
    ((Session.handled intake.inbound).zip final.written.toList).map Sequential.steady =
      (((Session.handled intake.inbound).zip otherFinal.written.toList).map
        Sequential.steady).take most
  /-- When all jobs have ended in both, both have recorded as many times. -/
  recorded : after.pool.IsQuiet → otherAfter.pool.IsQuiet →
    after.timings.size = otherAfter.timings.size

/-- A writer that ends changes nothing but what is written. A session whose writer manages `most`
replies, and the same session with a writer that manages all, each come to their end, whoever drives
them: a run is no longer than the work there is, and it cannot end before the session is over and
all jobs have ended. When both are over they have closed for the same reason, taken the same items
and submitted the same jobs; and the replies of the first are the first `most` replies of the other,
but for their times and for the answers about times. Once all jobs have ended, both services have
recorded as many times.

That the recorded times can be added up matters only to a request for the number of sweeps: where
their sum cannot be stored, no figure is told.

Proof: why a session closes and what it takes is settled by its intake, and on a live pool the
tickets are given out in the order of the items. What was written answers the first items in their
order; the only worker runs their jobs before all others, so that these replies are those of a
sequential service, and what is steady about them does not depend on how long jobs take. When
nothing is left in the pool every job was run, whether or not anybody waited for it. -/
theorem curtailed_of_hosts {timings : Timings} {intake : Intake} {most : Nat}
    {actions otherActions : List Action} {after otherAfter : Service} {final otherFinal : Session}
    (hosts : Hosts timings intake (some most) actions after final)
    (other : Hosts timings intake none otherActions otherAfter otherFinal) :
    actions.length ≤ (ofIntake timings intake (some most)).work ∧
      otherActions.length ≤ (ofIntake timings intake none).work ∧
      ((∀ action, action ≠ .stop → after.step? action = none) →
        final.isOver = true ∧ after.pool.IsQuiet) ∧
      ((∀ action, action ≠ .stop → otherAfter.step? action = none) →
        otherFinal.isOver = true ∧ otherAfter.pool.IsQuiet) ∧
      (final.isOver = true → otherFinal.isOver = true →
        Curtailed intake most after otherAfter
          ((ofIntake timings intake (some most)).history actions)
          ((ofIntake timings intake none).history otherActions) final otherFinal) := by
  refine ⟨hosts.length_le, other.length_le, hosts.of_stuck, other.of_stuck, ?_⟩
  intro finished otherFinished
  have size : final.written.size = min most otherFinal.written.size := by
    rw [hosts.size_written finished, other.size_written otherFinished]
    rfl
  refine ⟨⟨_, hosts.closed_eq finished, other.closed_eq otherFinished⟩,
    ⟨hosts.items_of_isOver finished, other.items_of_isOver otherFinished⟩, ?_, size, ?_, ?_, ?_⟩
  · rw [hosts.submissions_eq finished, other.submissions_eq otherFinished]
  · intro place reply otherReply wrote otherWrote
    obtain ⟨item, stands, settles⟩ := hosts.untimed_written wrote
    obtain ⟨same, otherStands, otherSettles⟩ := other.untimed_written otherWrote
    obtain rfl := Option.some.inj (stands.symm.trans otherStands)
    exact ⟨item, stands, Inbound.untimed_eq_of_settled settles otherSettles⟩
  · intro summed otherSummed
    have less : final.written.size ≤ otherFinal.written.size := size ▸ Nat.min_le_right _ _
    have length : (((Session.handled intake.inbound).zip otherFinal.written.toList).map
        Sequential.steady).length = otherFinal.written.size := by
      rw [List.length_map, List.length_zip, Array.length_toList]
      exact Nat.min_eq_right other.answerAll_written.1
    rw [hosts.steady_written other less summed otherSummed, size, ← length,
      ← List.take_eq_take_min]
  · intro quiet otherQuiet
    rw [hosts.size_timings finished quiet, other.size_timings otherFinished otherQuiet]

/-- A client that asks for a figure between two sweeps, the second of which cannot be answered any
more, and sends a line that is too long. -/
def hangingUp : Intake :=
  { items := [(⟨0⟩, .line "COUNT_GRID;x:0:1:3"), (⟨1⟩, .line "STAT_REQS"),
      (⟨2⟩, .line "COUNT_GRID;x:0:1:5"), (⟨9⟩, .overlong)]
    reason := .peerClosed
    closedAt := ⟨12⟩ }

/-- The writer ends with the answer to the second item, while the job of the third waits and the
last item is still to be read. -/
def cutShort : List Action :=
  [.read 0, .read 0, .start 0, .execute 0 ⟨7⟩, .deliver 0, .write 0, .read 0, .start 0,
    .execute 0 ⟨1⟩, .deliver 0, .write 0, .read 0, .start 0, .execute 0 ⟨4⟩, .read 0, .deliver 0]

/-- The writer writes everything. -/
def inFull : List Action :=
  [.read 0, .read 0, .read 0, .read 0, .read 0, .start 0, .execute 0 ⟨5⟩, .deliver 0, .start 0,
    .execute 0 ⟨2⟩, .deliver 0, .write 0, .write 0, .start 0, .execute 0 ⟨3⟩, .deliver 0, .write 0,
    .write 0]

/-- The client has one reply where it would have had four, and everything else is as if it had them.
-/
theorem curtailed_of_hosts_cutShort :
    ∃ (after otherAfter : Service) (final otherFinal : Session),
      Hosts {} hangingUp (some 1) cutShort after final ∧
      Hosts {} hangingUp none inFull otherAfter otherFinal ∧
      final.severed = true ∧ final.written.size = min 1 otherFinal.written.size ∧
      otherFinal.written.size = 4 ∧
      ((Session.handled hangingUp.inbound).zip final.written.toList).map Sequential.steady =
        (((Session.handled hangingUp.inbound).zip otherFinal.written.toList).map
          Sequential.steady).take 1 ∧
      after.timings.size = otherAfter.timings.size := by
  have ends : ((ofIntake {} hangingUp (some 1)).run? cutShort).any (fun after =>
      decide after.pool.IsQuiet && after.timings.summary?.isSome &&
        after.sessions[0]?.any fun session => session.isOver && session.severed) = true := by
    decide +kernel
  have otherEnds : ((ofIntake {} hangingUp none).run? inFull).any (fun after =>
      decide after.pool.IsQuiet && after.timings.summary?.isSome &&
        after.sessions[0]?.any fun session =>
          session.isOver && session.written.size == 4) = true := by
    decide +kernel
  obtain ⟨after, ran, known⟩ := (Option.any_eq_true _ _).mp ends
  obtain ⟨otherAfter, otherRan, otherKnown⟩ := (Option.any_eq_true _ _).mp otherEnds
  simp only [Bool.and_eq_true, decide_eq_true_eq] at known otherKnown
  obtain ⟨⟨quiet, summed⟩, stands⟩ := known
  obtain ⟨⟨otherQuiet, otherSummed⟩, otherStands⟩ := otherKnown
  obtain ⟨final, stands, finished⟩ := (Option.any_eq_true _ _).mp stands
  obtain ⟨otherFinal, otherStands, otherFinished⟩ := (Option.any_eq_true _ _).mp otherStands
  simp only [Bool.and_eq_true, beq_iff_eq] at finished otherFinished
  have hosts : Hosts {} hangingUp (some 1) cutShort after final := ⟨ran, by decide, stands⟩
  have other : Hosts {} hangingUp none inFull otherAfter otherFinal :=
    ⟨otherRan, by decide, otherStands⟩
  obtain ⟨-, -, -, -, both⟩ := curtailed_of_hosts hosts other
  have curtailed := both finished.1 otherFinished.1
  exact ⟨after, otherAfter, final, otherFinal, hosts, other, finished.2, curtailed.size,
    otherFinished.2, curtailed.steady summed otherSummed,
    curtailed.recorded quiet otherQuiet⟩

end Service

end ParamSweep
