import ParamSweep.Proofs.Service.Replies
import ParamSweep.Proofs.Service.Turns

/-!
# One worker serves as if there were no queue

Items are taken while earlier jobs still wait, jobs run while earlier replies are still to be
written, and the jobs for statistics read what the jobs of sweeps have recorded. On one worker, and
with connections that are served in turn, none of this shows: when all sessions are over, what they
wrote and what was recorded is what a sequential service comes to, which runs the job of an item
before it looks at the next item.

Every reply belongs to the job of its own item, however the service is driven. What is left is the
order of the jobs. It is the order of their items, and items are taken in the order of the
connections; so each job found the recorded times that it finds in the sequential service.
-/

namespace ParamSweep

/-- The last part of a list that is ordered by a key. -/
theorem filter_lt_append_filter_eq {α : Type} (key : α → Nat) {items : List α}
    (sorted : items.Pairwise fun one other => key one ≤ key other) {bound : Nat}
    (inside : ∀ item ∈ items, key item ≤ bound) :
    items.filter (key · < bound) ++ items.filter (key · = bound) = items := by
  induction items with
  | nil => rfl
  | cons first items inductionHypothesis =>
    obtain ⟨inFront, rest⟩ := List.pairwise_cons.mp sorted
    obtain ⟨here, others⟩ := List.forall_mem_cons.mp inside
    by_cases last : key first = bound
    · have same : ∀ item ∈ items, key item = bound := fun item member =>
        Nat.le_antisymm (others item member) (last ▸ inFront item member)
      have none : items.filter (key · < bound) = [] :=
        List.filter_eq_nil_iff.mpr fun item member => by simp [same item member]
      have all : items.filter (key · = bound) = items :=
        List.filter_eq_self.mpr fun item member => by simp [same item member]
      simp [last, none, all]
    · have less : key first < bound := Nat.lt_of_le_of_ne here last
      simpa [last, less] using inductionHypothesis rest others

/-- A list that is ordered by a key is made of its parts with one key each. -/
theorem flatMap_filter_key {α : Type} (key : α → Nat) {items : List α}
    (sorted : items.Pairwise fun one other => key one ≤ key other) {bound : Nat}
    (inside : ∀ item ∈ items, key item < bound) :
    (List.range bound).flatMap (fun part => items.filter (key · = part)) = items := by
  induction bound generalizing items with
  | zero =>
    cases items with
    | nil => rfl
    | cons first items => exact absurd (inside first List.mem_cons_self) (Nat.not_lt_zero _)
  | succ bound inductionHypothesis =>
    have last := filter_lt_append_filter_eq key sorted fun item member =>
      Nat.le_of_lt_succ (inside item member)
    have others := inductionHypothesis (sorted.filter (key · < bound)) (by simp)
    have parts : ∀ part ∈ List.range bound,
        (items.filter (key · < bound)).filter (key · = part) = items.filter (key · = part) := by
      intro part member
      rw [List.filter_filter]
      apply List.filter_congr
      intro item _
      have less := List.mem_range.mp member
      by_cases same : key item = part
      · simp [same, less]
      · simp [same]
    rw [List.range_succ, List.flatMap_append, List.flatMap_singleton,
      ← List.flatMap_congr parts, others, last]

/-- With one worker and no job left unanswered, the jobs were run as they were submitted. -/
theorem Pool.InOrder.eq_submissions {J : Type} {pool : Pool J} {submissions : List (Task J)}
    {executions : List (Execution J)} (inOrder : pool.InOrder submissions executions)
    (distinct : (submissions.map Task.ticket).Nodup)
    (all : ∀ task ∈ submissions, task ∈ executions.map Execution.task) :
    executions.map Execution.task = submissions := by
  have order := inOrder.order
  rw [List.append_assoc] at order
  have nothing : pool.runningTasks ++ pool.queue = [] := by
    refine List.eq_nil_iff_forall_not_mem.mpr fun task left => ?_
    rw [← order] at distinct
    have apart := (List.nodup_append.mp (List.Nodup.of_map _ distinct)).2.2
    refine apart task (all task ?_) task left rfl
    rw [← order]
    exact List.mem_append_right _ left
  rwa [nothing, List.append_nil] at order

/-- The job of an item that is answered was run. -/
theorem Answers.task_mem {executions : List (Execution Job)} {reception : Reception}
    {reply : Reply} (answers : Answers executions reception reply) {task : Task Job}
    (submitted : reception.task? = some task) : task ∈ executions.map Execution.task := by
  cases answers with
  | reply known => simp [Reception.task?, known] at submitted
  | quit known => simp [Reception.task?, known] at submitted
  | job known ran =>
    simp only [Reception.task?, known, Option.some.injEq] at submitted
    exact submitted ▸ List.mem_map_of_mem ran

namespace Service

/-- What an action in turn is. -/
theorem stepInTurn?_eq_some {service after : Service} {action : Action}
    (possible : service.stepInTurn? action = some after) :
    service.isTurn action = true ∧ service.step? action = some after :=
  Option.ite_none_right_eq_some.mp possible

/-- Writers and workers need not wait for their turn. -/
theorem isTurn_of_settles (service : Service) {action : Action}
    (settles : action.settles = true) : service.isTurn action = true := by
  cases action with
  | read | stop => cases settles
  | write | start | execute | deliver => rfl

/-- What holds along a run in turn on one worker. -/
structure InTurn (first service : Service) (history : History) : Prop where
  sound : Sound first service history
  inOrder : service.pool.InOrder history.submissions history.executions
  turns : service.Turns history
  inside : ∀ reception ∈ history.receptions, reception.session < first.sessions.size

/-- At the start nothing was done out of turn. -/
theorem inTurn_ofIntakes (intakes : List Intake) :
    InTurn (ofIntakes intakes) (ofIntakes intakes) {} := by
  refine ⟨sound_fresh rfl ?_, .ofWidth, turns_nil _, nofun⟩
  intro session member
  obtain ⟨intake, -, rfl⟩ : ∃ intake ∈ intakes, Session.ofIntake intake none = session := by
    simpa [ofIntakes] using member
  exact Session.fresh_ofIntake intake none

/-- A run in turn is a run, and what holds at its start holds at its end. -/
theorem InTurn.run {first service after : Service} {history : History} {actions : List Action}
    (inTurn : InTurn first service history) (ran : service.runInTurn? actions = some after) :
    service.run? actions = some after ∧ .stop ∉ actions ∧
      InTurn first after (service.historyFrom history actions) := by
  induction actions generalizing service history with
  | nil =>
    obtain rfl := Option.some.inj ran
    exact ⟨rfl, List.not_mem_nil, inTurn⟩
  | cons action actions inductionHypothesis =>
    obtain ⟨next, possible, others⟩ := Option.bind_eq_some_iff.mp ran
    obtain ⟨turn, stepped⟩ := stepInTurn?_eq_some possible
    have live : action ≠ .stop := by
      rintro rfl
      cases turn
    have inLine : InLine first service history := ⟨inTurn.sound, inTurn.inOrder, inTurn.inside⟩
    have kept := inLine.step stepped live
    have later : InTurn first next (history.after service action) :=
      ⟨kept.sound, kept.inOrder, inTurn.turns.step turn stepped, kept.inside⟩
    obtain ⟨rest, alive, final⟩ := inductionHypothesis later others
    refine ⟨Option.bind_eq_some_iff.mpr ⟨next, stepped, rest⟩, ?_, ?_⟩
    · simpa [live.symm] using alive
    · simpa [historyFrom, stepped] using final

/-- What a session of such a service began as and kept of it: its writer never ends. -/
theorem InTurn.exists_intake {intakes : List Intake} {service : Service} {history : History}
    (inTurn : InTurn (ofIntakes intakes) service history) {position : Nat} {session : Session}
    (stands : service.sessions[position]? = some session) :
    ∃ intake, intakes[position]? = some intake ∧ session.severed = false ∧
      session.Follows (.ofIntake intake none) (history.receptionsOf position)
        history.executions := by
  have place : position < (ofIntakes intakes).sessions.size := by
    rw [← inTurn.sound.size]
    exact (Array.getElem?_eq_some_iff.mp stands).1
  have began := Array.getElem?_eq_getElem place
  have follows := inTurn.sound.sessions position _ session began stands
  obtain ⟨intake, found, same⟩ : ∃ intake, intakes[position]? = some intake ∧
      Session.ofIntake intake none = (ofIntakes intakes).sessions[position] := by
    simpa [ofIntakes] using began
  rw [← same] at follows
  exact ⟨intake, found, follows.working rfl, follows⟩

/-- As long as not all sessions are over, the first that is not can go on in its turn. -/
theorem InTurn.exists_turn {intakes : List Intake} {service : Service} {history : History}
    (inTurn : InTurn (ofIntakes intakes) service history)
    (unfinished : ¬∀ session ∈ service.sessions, session.isOver = true) :
    ∃ action, (service.stepInTurn? action).isSome = true := by
  have found : (service.sessions.toList.find? fun session => !session.isOver).isSome = true := by
    simpa using unfinished
  obtain ⟨session, first⟩ := Option.isSome_iff_exists.mp found
  obtain ⟨notOver, before, behind, parts, ended⟩ := List.find?_eq_some_iff_append.mp first
  have stands : service.sessions[before.length]? = some session := by
    rw [← Array.getElem?_toList, parts]
    simp
  obtain ⟨intake, -, working, -⟩ := inTurn.exists_intake stands
  cases closed : session.closed with
  | none =>
    have turn : service.isTurn (.read before.length) = true := by
      simpa [isTurn, parts] using ended
    refine ⟨.read before.length, ?_⟩
    rw [stepInTurn?, if_pos turn]
    exact isSome_read stands closed
  | some reason =>
    obtain ⟨action, settles, possible⟩ := inTurn.sound.exists_settling stands working
      (by rw [closed]; rfl) (by simpa using notOver)
    refine ⟨action, ?_⟩
    rw [stepInTurn?, if_pos (service.isTurn_of_settles settles)]
    exact possible

/-- When all sessions are over, the items that were taken fall into those of one session each,
which are all that the session takes, and everything is answered. -/
theorem InTurn.parts {intakes : List Intake} {service : Service} {history : History}
    (inTurn : InTurn (ofIntakes intakes) service history)
    (ended : ∀ session ∈ service.sessions, session.isOver = true) :
    ∃ parts : List (List Reception), parts.flatten = history.receptions ∧
      parts.map (·.map Reception.item) =
        (intakes.map Intake.inbound).map Session.handled ∧
      List.Forall₂ (List.Forall₂ (Answers history.executions)) parts
        (service.sessions.toList.map (·.written.toList)) := by
  have size : service.sessions.size = intakes.length := by
    simp [inTurn.sound.size, ofIntakes]
  have part {position : Nat} {session : Session}
      (stands : service.sessions[position]? = some session) :
      ∃ intake, intakes[position]? = some intake ∧
        (history.receptionsOf position).map Reception.item = Session.handled intake.inbound ∧
        List.Forall₂ (Answers history.executions) (history.receptionsOf position)
          session.written.toList := by
    obtain ⟨intake, found, working, follows⟩ := inTurn.exists_intake stands
    have finished := ended session (Array.mem_of_getElem? stands)
    obtain ⟨items, replies⟩ := follows.of_isOver working finished
    exact ⟨intake, found, items, replies⟩
  refine ⟨(List.range service.sessions.size).map history.receptionsOf, ?_, ?_, ?_⟩
  · rw [← List.flatMap_def]
    refine flatMap_filter_key Reception.session inTurn.turns.sorted fun reception member => ?_
    rw [inTurn.sound.size]
    exact inTurn.inside reception member
  · refine List.ext_getElem (by simp [size]) fun position inside _ => ?_
    have place : position < service.sessions.size := by simpa using inside
    obtain ⟨intake, found, items, -⟩ := part (Array.getElem?_eq_getElem place)
    obtain ⟨_, rfl⟩ := List.getElem?_eq_some_iff.mp found
    simpa using items
  · refine List.forall₂_iff_get.mpr ⟨by simp, fun position inside _ => ?_⟩
    have place : position < service.sessions.size := by simpa using inside
    obtain ⟨intake, -, -, replies⟩ := part (Array.getElem?_eq_getElem place)
    simpa using replies

end Service

/-- What a service wrote and recorded that served connections as a sequential service does whose
jobs take the given times. Where it speaks of figures it takes for granted that the recorded times
can be added up, as those of a clock always can: without their sum no figure is told at all. -/
structure Service.Serial (service : Service) (elapsed : Nat → Duration)
    (connections : List (List Inbound)) : Prop where
  /-- All replies on all connections are those of the sequential service. -/
  replies : service.sessions.toList.map (·.written.toList) =
    (Sequential.transcripts elapsed connections).map (·.map Prod.snd)
  timings : service.timings = Sequential.recorded elapsed connections
  /-- Other times change nothing but the time fields and the answers about times. -/
  steady : service.timings.summary?.isSome = true → ∀ other : Nat → Duration,
    (Sequential.recorded other connections).summary?.isSome = true →
      (Sequential.transcripts elapsed connections).map (·.map Sequential.steady) =
        (Sequential.transcripts other connections).map (·.map Sequential.steady)
  /-- The number of sweeps that a client is told counts those that succeeded before. -/
  requests : service.timings.summary?.isSome = true → ∀ before item reply behind,
    (Sequential.transcripts elapsed connections).flatten = before ++ (item, reply) :: behind →
      item.statistic? = some .requests →
        ∃ time, reply = .success time (.whole (before.countP fun turn => turn.1.succeeds))
  /-- One time is recorded for each sweep that succeeded. -/
  size : service.timings.size = (connections.flatMap Session.handled).countP Inbound.succeeds

namespace Service

/-- Jobs that were run in order, on items that were taken in order, serve the connections. -/
theorem InTurn.serial {intakes : List Intake} {service : Service} {history : History}
    (inTurn : InTurn (ofIntakes intakes) service history)
    (ended : ∀ session ∈ service.sessions, session.isOver = true) {elapsed : Nat → Duration}
    (replays : Sequential.Replays elapsed {} history.executions
      ⟨service.timings, history.executions.length⟩) :
    service.Serial elapsed (intakes.map Intake.inbound) := by
  obtain ⟨parts, whole, items, replies⟩ := inTurn.parts ended
  have allReplies : List.Forall₂ (Answers history.executions) history.receptions
      (service.sessions.toList.map (·.written.toList)).flatten := by
    rw [← whole]
    exact List.rel_flatten replies
  have allItems : history.receptions.map Reception.item =
      (intakes.map Intake.inbound).flatMap Session.handled := by
    rw [← whole, List.map_flatten, items, List.flatMap_def]
  have order : history.executions.map Execution.task = history.submissions := by
    refine inTurn.inOrder.eq_submissions inTurn.sound.custody.nodup_tickets fun task member => ?_
    obtain ⟨reception, taken, submitted⟩ := List.mem_filterMap.mp member
    obtain ⟨place, inside, rfl⟩ := List.mem_iff_getElem.mp taken
    exact (allReplies.get inside (allReplies.length_eq ▸ inside)).task_mem submitted
  have answers := replays.answerAll inTurn.sound.custody.nodup_executed (List.Subset.refl _)
    allReplies order
  have lengths := allReplies.length_eq
  rw [← List.length_map Reception.item, allItems] at lengths
  rw [allItems] at answers
  have timings : service.timings =
      Sequential.recorded elapsed (intakes.map Intake.inbound) := by
    rw [Sequential.recorded_eq, answers]
  refine ⟨?_, timings, ?_, ?_, ?_⟩
  · -- Transcripts are the same if all of them together and the length of each are.
    refine List.eq_iff_flatten_eq.mpr ⟨?_, ?_⟩
    · rw [← List.map_flatten, Sequential.transcripts_flatten, answers,
        List.map_snd_zip (Nat.le_of_eq lengths.symm)]
    · have sizes : parts.map List.length =
          (service.sessions.toList.map (·.written.toList)).map List.length := by
        rw [← List.forall₂_eq_eq_eq, List.forall₂_map_left_iff, List.forall₂_map_right_iff]
        exact replies.imp fun _ _ answered => answered.length_eq
      have own := congrArg (List.map List.length) items
      rw [← sizes, Sequential.map_length_transcripts]
      simpa [Function.comp_def] using own
  · intro summed other otherSummed
    exact Sequential.steady_transcripts (timings ▸ summed) otherSummed
  · intro summed before item reply behind parts asks
    rw [Sequential.transcripts_flatten] at parts
    rw [timings, Sequential.recorded_eq] at summed
    simpa [Timings.size] using Sequential.requests_answerAll parts asks summed
  · rw [timings, Sequential.recorded_eq, Sequential.size_answerAll]
    exact Nat.zero_add _

/-- Connections that are served in turn by one worker are served as a sequential service serves
them, whose jobs take the times that they took. Whoever drives the service, it comes to the end of
all connections: a run is no longer than the work there is, and as long as some session is not over
something can be done that keeps to the turn.

Proof: along a run in turn every item keeps its place in its session, jobs are run in the order of
their items, and items are taken in the order of the sessions. The jobs that were run can be
replayed by the sequential service, since each ran on the times that those before it left. When all
sessions are over every item is answered with the reply of its own job, so the replay answers the
items in their order with the replies that were written. -/
theorem serial_of_turns {intakes : List Intake} {actions : List Action} {after : Service}
    (ran : (ofIntakes intakes).runInTurn? actions = some after) :
    actions.length ≤ (ofIntakes intakes).work ∧
      ((∀ action, after.stepInTurn? action = none) →
        ∀ session ∈ after.sessions, session.isOver = true) ∧
      ((∀ session ∈ after.sessions, session.isOver = true) →
        after.Serial (Action.clock actions) (intakes.map Intake.inbound)) := by
  obtain ⟨possible, live, inTurn⟩ := (inTurn_ofIntakes intakes).run ran
  refine ⟨?_, ?_, ?_⟩
  · have bound := length_run possible live
    omega
  · intro stuck
    by_contra unfinished
    obtain ⟨action, goesOn⟩ := inTurn.exists_turn unfinished
    rw [stuck action] at goesOn
    cases goesOn
  · exact fun ended => inTurn.serial ended (replays_of_run possible)

/-- A client that counts the points of a grid and asks for the number of sweeps, and one that sends
a line that is too long and asks for the same. -/
def twoClients : List Intake :=
  [{ items := [(⟨0⟩, .line "COUNT_GRID;x:0:1:3"), (⟨0⟩, .line "STAT_REQS")]
     reason := .peerClosed
     closedAt := ⟨1⟩ },
   { items := [(⟨2⟩, .overlong), (⟨3⟩, .line "STAT_REQS")]
     reason := .peerClosed
     closedAt := ⟨4⟩ }]

/-- Both readers are done before the worker starts with the jobs of their connections. -/
def readAhead : List Action :=
  [.read 0, .read 0, .read 0, .start 0, .execute 0 ⟨7⟩, .deliver 0, .start 0, .write 0,
    .execute 0 ⟨2⟩, .deliver 0, .write 0, .read 1, .read 1, .read 1, .write 1, .start 0,
    .execute 0 ⟨3⟩, .deliver 0, .write 1]

/-- Reading ahead makes no difference: the clients are served as by the sequential service, and one
sweep is recorded. -/
theorem serial_of_turns_readAhead :
    ∃ after, (ofIntakes twoClients).runInTurn? readAhead = some after ∧
      after.Serial (Action.clock readAhead) (twoClients.map Intake.inbound) ∧
      after.timings.size = 1 := by
  have ends : ((ofIntakes twoClients).runInTurn? readAhead).any (fun after =>
      after.sessions.all Session.isOver && after.timings.size == 1) = true := by
    decide +kernel
  obtain ⟨after, ran, finished⟩ := (Option.any_eq_true _ _).mp ends
  obtain ⟨ended, one⟩ := Bool.and_eq_true_iff.mp finished
  obtain ⟨-, -, serves⟩ := serial_of_turns ran
  exact ⟨after, ran, serves (Array.all_eq_true_iff_forall_mem.mp ended), by simpa using one⟩

end Service

end ParamSweep
