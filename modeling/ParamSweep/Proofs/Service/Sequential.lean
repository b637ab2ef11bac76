import ParamSweep.Proofs.Service.History
import ParamSweep.Proofs.Timings.Average

/-!
# One item after the other

The simplest service takes the items of one connection after the other and runs the job of an item
to its end before it looks at the next item. How long jobs take is left open; it shows in the time
field of replies and in the answers to requests for the average and for the longest time.

Nothing else that this service replies depends on it: which sweeps succeed is a matter of their
lines alone, and the number of recorded times is the number of sweeps that succeeded so far.
-/

namespace ParamSweep

/-- A reply without the time that the request took. -/
def Reply.untimed : Reply → Reply
  | success _ answer => success .zero answer
  | reply => reply

namespace Timings

/-- There are figures where the times can be added up. -/
theorem isSome_summary? (timings : Timings) :
    timings.summary?.isSome = (Duration.sum? timings.times.toList).isSome := by
  cases sum : Duration.sum? timings.times.toList with
  | none => simp [summary?, sum]
  | some total =>
    obtain ⟨average, formed⟩ := exists_average? (Duration.lt_limit_of_sum? sum) timings.size
    simp [summary?, sum, formed]

/-- The number of requests among the figures is that of the recorded times. -/
theorem requests_of_summary? {timings : Timings} {summary : Summary}
    (known : timings.summary? = some summary) : summary.requests = timings.size := by
  obtain ⟨total, -, known⟩ := Option.bind_eq_some_iff.mp known
  obtain ⟨average, -, same⟩ := Option.bind_eq_some_iff.mp known
  rw [← Option.some.inj same]

/-- Times can be added up if these and more can. -/
theorem isSome_summary?_of_prefix {fewer more : Timings}
    (part : fewer.times.toList <+: more.times.toList)
    (summed : more.summary?.isSome = true) : fewer.summary?.isSome = true := by
  obtain ⟨rest, times⟩ := part
  rw [isSome_summary?, ← times, Duration.sum?, List.foldlM_append] at summed
  rw [isSome_summary?]
  exact Option.isSome_of_isSome_bind summed

end Timings

namespace Inbound

/-- Whether an item is a sweep that succeeds. -/
def succeeds (item : Inbound) : Bool :=
  match Dispatch.ofInbound item with
  | .submit (.sweep sweep) => sweep.run.isOk
  | _ => false

/-- The statistic that an item asks for. -/
def statistic? (item : Inbound) : Option Statistic :=
  match Dispatch.ofInbound item with
  | .submit (.statistic statistic) => some statistic
  | _ => none

end Inbound

/-- What a service that runs jobs at once keeps: the recorded times, and how many jobs were run. -/
structure Sequential where
  timings : Timings := {}
  jobs : Nat := 0

namespace Sequential

section

variable (elapsed : Nat → Duration)

/-- Runs a job. The jobs take the given times, each job the next of them. -/
def run (state : Sequential) (job : Job) : Reply × Sequential :=
  let ended := job.run (elapsed state.jobs) state.timings
  (ended.1.reply, { timings := ended.2, jobs := state.jobs + 1 })

/-- Answers an item. -/
def answer (state : Sequential) (item : Inbound) : Reply × Sequential :=
  match Dispatch.ofInbound item with
  | .reply reply | .quit reply => (reply, state)
  | .submit job => state.run elapsed job

/-- Serves a connection: the items up to the first that ends it, each with its reply. -/
def serve (state : Sequential) : List Inbound → List (Inbound × Reply) × Sequential
  | [] => ([], state)
  | item :: items =>
    let answered := state.answer elapsed item
    if Session.quits item then ([(item, answered.1)], answered.2)
    else
      let others := answered.2.serve items
      ((item, answered.1) :: others.1, others.2)

/-- Serves one connection after the other. -/
def serveAll (state : Sequential) :
    List (List Inbound) → List (List (Inbound × Reply)) × Sequential
  | [] => ([], state)
  | items :: connections =>
    let served := state.serve elapsed items
    let others := served.2.serveAll connections
    (served.1 :: others.1, others.2)

/-- What is replied on connections that are served one after the other. -/
def transcripts (connections : List (List Inbound)) : List (List (Inbound × Reply)) :=
  (serveAll elapsed {} connections).1

/-- The times that are recorded when connections were served. -/
def recorded (connections : List (List Inbound)) : Timings :=
  (serveAll elapsed {} connections).2.timings

/-- Answers items in order, whatever connection they are from. -/
def answerAll (state : Sequential) : List Inbound → List (Inbound × Reply) × Sequential
  | [] => ([], state)
  | item :: items =>
    let answered := state.answer elapsed item
    let others := answered.2.answerAll items
    ((item, answered.1) :: others.1, others.2)

end

/-- What an item can come to: a reply that does not depend on times, the answer of a sweep, whose
time is recorded, or a figure about the recorded times. -/
theorem answer_cases (item : Inbound) :
    (item.succeeds = false ∧ item.statistic? = none ∧ ∃ reply,
        ∀ (elapsed : Nat → Duration) (state : Sequential),
          (state.answer elapsed item).1 = reply ∧
            (state.answer elapsed item).2.timings = state.timings) ∨
      (item.succeeds = true ∧ item.statistic? = none ∧ ∃ answer,
        ∀ (elapsed : Nat → Duration) (state : Sequential),
          (state.answer elapsed item).1 = .success (elapsed state.jobs) answer ∧
            (state.answer elapsed item).2.timings = state.timings.record (elapsed state.jobs)) ∨
      (item.succeeds = false ∧ ∃ wanted, item.statistic? = some wanted ∧
        ∀ (elapsed : Nat → Duration) (state : Sequential),
          (∀ summary, state.timings.summary? = some summary →
            (state.answer elapsed item).1 =
              .success (elapsed state.jobs) (summary.answer wanted)) ∧
            (state.answer elapsed item).2.timings = state.timings) := by
  unfold answer Inbound.succeeds Inbound.statistic?
  cases Dispatch.ofInbound item with
  | reply reply => exact .inl ⟨rfl, rfl, reply, fun _ _ => ⟨rfl, rfl⟩⟩
  | quit reply => exact .inl ⟨rfl, rfl, reply, fun _ _ => ⟨rfl, rfl⟩⟩
  | submit job =>
    cases job with
    | sweep sweep =>
      cases result : sweep.run with
      | ok answer =>
        refine .inr (.inl ⟨congrArg Except.isOk result, rfl, answer, fun elapsed state => ?_⟩)
        simp [run, Job.run, Job.endSweep, result, Outcome.reply]
      | error fault =>
        refine .inl ⟨congrArg Except.isOk result, rfl, .ofFault fault, fun elapsed state => ?_⟩
        simp [run, Job.run, Job.endSweep, result, Outcome.reply]
    | statistic wanted =>
      refine .inr (.inr ⟨rfl, wanted, rfl, fun elapsed state => ⟨?_, ?_⟩⟩)
      · intro summary known
        simp [run, Job.run, Job.endStatistic, Timings.reply?, known, Outcome.reply]
      · simp only [run, Job.run, Job.endStatistic]
        cases state.timings.reply? wanted (elapsed state.jobs) <;> rfl

variable {elapsed other : Nat → Duration} {state left right : Sequential}

/-- Only a sweep that succeeds has its time recorded. -/
theorem timings_answer (elapsed : Nat → Duration) (state : Sequential) (item : Inbound) :
    (state.answer elapsed item).2.timings =
      if item.succeeds then state.timings.record (elapsed state.jobs) else state.timings := by
  obtain ⟨fails, -, reply, known⟩ | ⟨succeeds, -, answer, known⟩ | ⟨fails, wanted, -, known⟩ :=
    answer_cases item
  · rw [fails, (known elapsed state).2]
    rfl
  · rw [succeeds, (known elapsed state).2]
    rfl
  · rw [fails, (known elapsed state).2]
    rfl

/-- One time is recorded for an item that succeeds, and none for any other. -/
theorem size_answer (elapsed : Nat → Duration) (state : Sequential) (item : Inbound) :
    (state.answer elapsed item).2.timings.size =
      state.timings.size + if item.succeeds then 1 else 0 := by
  rw [timings_answer]
  split
  · exact Array.size_push _
  · rfl

/-- As many times are recorded as sweeps succeeded. -/
theorem size_answerAll (elapsed : Nat → Duration) (state : Sequential) (items : List Inbound) :
    (state.answerAll elapsed items).2.timings.size =
      state.timings.size + items.countP Inbound.succeeds := by
  induction items generalizing state with
  | nil => rfl
  | cons item items inductionHypothesis =>
    rw [answerAll, List.countP_cons]
    refine (inductionHypothesis _).trans ?_
    rw [size_answer]
    omega

/-- Recorded times stay. -/
theorem prefix_answerAll (elapsed : Nat → Duration) (state : Sequential) (items : List Inbound) :
    state.timings.times.toList <+: (state.answerAll elapsed items).2.timings.times.toList := by
  induction items generalizing state with
  | nil => exact List.prefix_refl _
  | cons item items inductionHypothesis =>
    refine .trans ?_ (inductionHypothesis _)
    rw [timings_answer]
    split
    · exact ⟨[elapsed state.jobs], Array.toList_push.symm⟩
    · exact List.prefix_refl _

/-- Items are answered one after the other, and the state goes on from each to the next. -/
theorem answerAll_append (elapsed : Nat → Duration) (state : Sequential)
    (before behind : List Inbound) :
    state.answerAll elapsed (before ++ behind) =
      ((state.answerAll elapsed before).1 ++
          ((state.answerAll elapsed before).2.answerAll elapsed behind).1,
        ((state.answerAll elapsed before).2.answerAll elapsed behind).2) := by
  induction before generalizing state with
  | nil => rfl
  | cons item before inductionHypothesis =>
    simp only [List.cons_append, answerAll, inductionHypothesis]

/-- Every item is answered, in its turn. -/
theorem map_fst_answerAll (elapsed : Nat → Duration) (state : Sequential)
    (items : List Inbound) : (state.answerAll elapsed items).1.map Prod.fst = items := by
  induction items generalizing state with
  | nil => rfl
  | cons item items inductionHypothesis =>
    simp only [answerAll, List.map_cons, inductionHypothesis]

/-- Serving a connection is answering the items that a session takes. -/
theorem serve_eq_answerAll (elapsed : Nat → Duration) (state : Sequential)
    (items : List Inbound) :
    state.serve elapsed items = state.answerAll elapsed (Session.handled items) := by
  induction items generalizing state with
  | nil => rfl
  | cons item items inductionHypothesis =>
    rw [serve, Session.handled, answerAll]
    split
    · rfl
    · rw [inductionHypothesis]

/-- Serving connections one after the other is answering what their sessions take. -/
theorem serveAll_eq_answerAll (elapsed : Nat → Duration) (state : Sequential)
    (connections : List (List Inbound)) :
    ((state.serveAll elapsed connections).1.flatten, (state.serveAll elapsed connections).2) =
      state.answerAll elapsed (connections.flatMap Session.handled) := by
  induction connections generalizing state with
  | nil => rfl
  | cons items connections inductionHypothesis =>
    rw [List.flatMap_cons, answerAll_append, ← serve_eq_answerAll, ← inductionHypothesis]
    rfl

/-- The items that are served on a connection are those that a session takes. -/
theorem map_fst_serveAll (elapsed : Nat → Duration) (state : Sequential)
    (connections : List (List Inbound)) :
    (state.serveAll elapsed connections).1.map (·.map Prod.fst) =
      connections.map Session.handled := by
  induction connections generalizing state with
  | nil => rfl
  | cons items connections inductionHypothesis =>
    simp only [serveAll, List.map_cons, inductionHypothesis, serve_eq_answerAll,
      map_fst_answerAll]

/-- What of a reply has nothing to do with how long jobs take. -/
def steady (turn : Inbound × Reply) : Option Reply :=
  match turn.1.statistic? with
  | some .averageTime | some .longestTime => none
  | _ => some turn.2.untimed

/-- A request for the number of sweeps gets the number of recorded times. -/
theorem answer_requests {item : Inbound} (asks : item.statistic? = some .requests)
    (summed : state.timings.summary?.isSome = true) (elapsed : Nat → Duration) :
    (state.answer elapsed item).1 = .success (elapsed state.jobs) (.whole state.timings.size) := by
  obtain ⟨-, none, -⟩ | ⟨-, none, -⟩ | ⟨-, wanted, asked, known⟩ := answer_cases item
  · cases none.symm.trans asks
  · cases none.symm.trans asks
  · cases asked.symm.trans asks
    obtain ⟨summary, found⟩ := Option.isSome_iff_exists.mp summed
    rw [(known elapsed state).1 summary found, ← Timings.requests_of_summary? found]
    rfl

example : (answer (fun _ => ⟨7⟩) {} (.line "STAT_REQS")).1 = .success ⟨7⟩ (.whole 0) := by rfl

/-- What is steady about a reply depends on the number of recorded times only. -/
theorem steady_answer (elapsed other : Nat → Duration) (item : Inbound)
    (same : left.timings.size = right.timings.size)
    (leftSummed : left.timings.summary?.isSome = true)
    (rightSummed : right.timings.summary?.isSome = true) :
    steady (item, (left.answer elapsed item).1) = steady (item, (right.answer other item).1) := by
  obtain ⟨-, none, reply, known⟩ | ⟨-, none, answer, known⟩ | ⟨-, wanted, asked, -⟩ :=
    answer_cases item
  · rw [(known elapsed left).1, (known other right).1]
  · rw [(known elapsed left).1, (known other right).1]
    simp only [steady, none, Reply.untimed]
  · cases wanted with
    | requests =>
      rw [answer_requests asked leftSummed, answer_requests asked rightSummed, same]
      simp only [steady, asked, Reply.untimed]
    | averageTime => simp only [steady, asked]
    | longestTime => simp only [steady, asked]

/-- The steady part of all replies does not depend on how long jobs take, as long as their times
can be added up. -/
theorem steady_answerAll {items : List Inbound} (same : left.timings.size = right.timings.size)
    (leftSummed : (left.answerAll elapsed items).2.timings.summary?.isSome = true)
    (rightSummed : (right.answerAll other items).2.timings.summary?.isSome = true) :
    (left.answerAll elapsed items).1.map steady = (right.answerAll other items).1.map steady := by
  induction items generalizing left right with
  | nil => rfl
  | cons item items inductionHypothesis =>
    have first := steady_answer elapsed other item same
      (Timings.isSome_summary?_of_prefix (prefix_answerAll _ _ _) leftSummed)
      (Timings.isSome_summary?_of_prefix (prefix_answerAll _ _ _) rightSummed)
    have sizes : (left.answer elapsed item).2.timings.size =
        (right.answer other item).2.timings.size := by
      rw [size_answer, size_answer, same]
    simp only [answerAll, List.map_cons, first]
    rw [inductionHypothesis sizes leftSummed rightSummed]

/-- A request for the number of sweeps is answered with how many succeeded before it. -/
theorem requests_answerAll {items : List Inbound} {before behind : List (Inbound × Reply)}
    {item : Inbound} {reply : Reply}
    (parts : (state.answerAll elapsed items).1 = before ++ (item, reply) :: behind)
    (asks : item.statistic? = some .requests)
    (summed : (state.answerAll elapsed items).2.timings.summary?.isSome = true) :
    ∃ time, reply = .success time
      (.whole (state.timings.size + before.countP fun turn => turn.1.succeeds)) := by
  induction before generalizing state items with
  | nil =>
    cases items with
    | nil => cases parts
    | cons first items =>
      obtain ⟨rfl, rfl⟩ := Prod.mk.inj (List.cons.inj parts).1
      have sum := Timings.isSome_summary?_of_prefix (prefix_answerAll _ _ _) summed
      exact ⟨elapsed state.jobs, answer_requests asks sum elapsed⟩
  | cons turn before inductionHypothesis =>
    cases items with
    | nil => cases parts
    | cons first items =>
      obtain ⟨rfl, others⟩ := List.cons.inj parts
      obtain ⟨time, answered⟩ := inductionHypothesis others summed
      refine ⟨time, ?_⟩
      rw [answered, size_answer, List.countP_cons, Nat.add_assoc,
        Nat.add_comm (before.countP _)]

/-- What is replied and recorded, without regard to connections. -/
theorem transcripts_flatten (elapsed : Nat → Duration) (connections : List (List Inbound)) :
    (transcripts elapsed connections).flatten =
      (answerAll elapsed {} (connections.flatMap Session.handled)).1 :=
  congrArg Prod.fst (serveAll_eq_answerAll elapsed {} connections)

/-- What is recorded, without regard to connections. -/
theorem recorded_eq (elapsed : Nat → Duration) (connections : List (List Inbound)) :
    recorded elapsed connections =
      (answerAll elapsed {} (connections.flatMap Session.handled)).2.timings :=
  congrArg (·.2.timings) (serveAll_eq_answerAll elapsed {} connections)

/-- There is one reply for each item that a session takes. -/
theorem map_length_transcripts {α : Type} (elapsed : Nat → Duration)
    (connections : List (List Inbound)) (read : Inbound × Reply → α) :
    ((transcripts elapsed connections).map (·.map read)).map List.length =
      (connections.map Session.handled).map List.length := by
  rw [← map_fst_serveAll elapsed {} connections]
  simp [transcripts]

/-- The steady part of what is replied does not depend on how long jobs take. -/
theorem steady_transcripts {connections : List (List Inbound)}
    (summed : (recorded elapsed connections).summary?.isSome = true)
    (otherSummed : (recorded other connections).summary?.isSome = true) :
    (transcripts elapsed connections).map (·.map steady) =
      (transcripts other connections).map (·.map steady) := by
  rw [recorded_eq] at summed otherSummed
  have replies := steady_answerAll rfl summed otherSummed
  refine List.eq_iff_flatten_eq.mpr ⟨?_, ?_⟩
  · rw [← List.map_flatten, ← List.map_flatten, transcripts_flatten, transcripts_flatten, replies]
  · rw [map_length_transcripts, map_length_transcripts]

end Sequential

end ParamSweep
