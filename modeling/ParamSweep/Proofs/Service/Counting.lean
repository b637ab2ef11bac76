import Mathlib.Data.List.Flatten
import ParamSweep.Proofs.Service.Replies
import ParamSweep.Proofs.Service.Stopping
import ParamSweep.Proofs.Service.Turns

/-!
# What the recorded times count

Jobs run on many workers, and some of them leave their time among the recorded times while others
look at these. Still the recorded times are those of the sweeps that succeeded, one for each run and
in the order of the runs: a job is run and recorded in one step, and no step takes a record away.

A client that asks for the number of sweeps is told how many there were when its job was run. That
is between the reading of its line and the writing of its reply, so the client is told of every
sweep whose success was written to anybody before it asked, and of no sweep that nobody had
submitted by then. And since records only ever come to the end, who is told later is not told less.
-/

namespace ParamSweep

/-- Whether a job is a sweep. -/
def Job.isSweep : Job → Bool
  | .sweep _ => true
  | .statistic _ => false

/-- Whether a job is a sweep that succeeds. -/
def Job.succeeds : Job → Bool
  | .sweep wanted => wanted.run.isOk
  | .statistic _ => false

/-- Whether an item asks for a sweep, and for one that can be read. -/
def Inbound.isSweep (item : Inbound) : Bool :=
  match Dispatch.ofInbound item with
  | .submit job => job.isSweep
  | .reply _ | .quit _ => false

/-- The time that the run of a job left among the recorded times: that of the success of a sweep. -/
def Execution.recorded? (execution : Execution Job) : Option Duration :=
  match execution.job with
  | .sweep _ => execution.reply.elapsed?
  | .statistic _ => none

/-- The number that a reply tells. -/
def Reply.told? : Reply → Option Nat
  | .success _ (.whole count) => some count
  | _ => none

/-- Only a success with a whole number tells a count. -/
theorem Reply.exists_of_told? {reply : Reply} {count : Nat}
    (tells : reply.told? = some count) : ∃ time, reply = .success time (.whole count) := by
  unfold Reply.told? at tells
  split at tells
  next time told =>
    obtain rfl := Option.some.inj tells
    exact ⟨time, rfl⟩
  next => cases tells

/-- The run of a job records what its reply tells, and it tells of a time to record if the job is a
sweep that succeeds. -/
theorem Job.times_run (ticket : Nat) (job : Job) (elapsed : Duration) (timings : Timings) :
    (job.run elapsed timings).2.times.toList = timings.times.toList ++
        (Execution.recorded? ⟨ticket, job, (job.run elapsed timings).1.reply⟩).toList ∧
      (Execution.recorded? ⟨ticket, job, (job.run elapsed timings).1.reply⟩).isSome =
        job.succeeds := by
  cases job with
  | sweep sweep =>
    simp only [run, endSweep, succeeds, Execution.recorded?]
    cases sweep.run with
    | ok answer => exact ⟨Array.toList_push, rfl⟩
    | error fault => exact ⟨(List.append_nil _).symm, rfl⟩
  | statistic wanted =>
    simp only [run, endStatistic, succeeds, Execution.recorded?]
    cases timings.reply? wanted elapsed with
    | some reply => exact ⟨(List.append_nil _).symm, rfl⟩
    | none => exact ⟨(List.append_nil _).symm, rfl⟩

/-- The reply of a sweep tells whether it succeeds. -/
theorem Job.isOk_run {job : Job} (asks : job.isSweep = true) (elapsed : Duration)
    (timings : Timings) : (job.run elapsed timings).1.reply.isOk = job.succeeds := by
  cases job with
  | sweep sweep =>
    simp only [run, endSweep, succeeds]
    cases sweep.run <;> rfl
  | statistic wanted => cases asks

/-- A count that is told is the number of recorded times. -/
theorem Job.count_of_run {elapsed time : Duration} {timings : Timings} {count : Nat}
    (told : ((Job.statistic .requests).run elapsed timings).1.reply =
      .success time (.whole count)) : count = timings.size := by
  simp only [run, endStatistic, Timings.reply?] at told
  cases known : timings.summary? with
  | none =>
    rw [known] at told
    cases told
  | some summary =>
    rw [known] at told
    cases told
    exact Timings.requests_of_summary? known

/-- A job adds one time if it is a sweep that succeeds. -/
theorem Sequential.size_run (elapsed : Nat → Duration) (state : Sequential) (job : Job) :
    (state.run elapsed job).2.timings.size =
      state.timings.size + if job.succeeds then 1 else 0 := by
  obtain ⟨times, succeeds⟩ := job.times_run 0 (elapsed state.jobs) state.timings
  have lengths := congrArg List.length times
  rw [List.length_append, Array.length_toList, Array.length_toList] at lengths
  rw [← succeeds]
  refine lengths.trans (congrArg (state.timings.size + ·) ?_)
  cases Execution.recorded? _ <;> rfl

namespace Sequential.Replays

variable {elapsed : Nat → Duration} {state final : Sequential}

/-- The times that are recorded in a replay are those that its jobs leave. -/
theorem times {executions : List (Execution Job)}
    (replays : Replays elapsed state executions final) :
    final.timings.times.toList =
      state.timings.times.toList ++ executions.filterMap Execution.recorded? := by
  induction replays with
  | nil state => exact (List.append_nil _).symm
  | @cons state final execution executions reply others inductionHypothesis =>
    obtain ⟨ticket, job, own⟩ := execution
    obtain rfl : own = (state.run elapsed job).1 := reply
    obtain ⟨more, -⟩ := job.times_run ticket (elapsed state.jobs) state.timings
    have now : (state.run elapsed job).2.timings.times.toList = state.timings.times.toList ++
        (Execution.recorded? ⟨ticket, job, (state.run elapsed job).1⟩).toList := more
    rw [inductionHypothesis, now, List.append_assoc]
    cases known : Execution.recorded? ⟨ticket, job, (state.run elapsed job).1⟩ <;> simp [known]

/-- As many times are recorded as jobs were run that are sweeps and succeed. -/
theorem size {executions : List (Execution Job)}
    (replays : Replays elapsed state executions final) :
    final.timings.size =
      state.timings.size + (executions.map Execution.task).countP (·.job.succeeds) := by
  induction replays with
  | nil state => rfl
  | @cons state final execution executions reply others inductionHypothesis =>
    rw [inductionHypothesis, size_run, List.map_cons, List.countP_cons]
    have job : execution.task.job = execution.job := rfl
    rw [job]
    omega

end Sequential.Replays

/-- The times that a run leaves are those of its start and those that its jobs leave. -/
theorem Service.times_of_run {service after : Service} {actions : List Action}
    (ran : service.run? actions = some after) :
    after.timings.times.toList = service.timings.times.toList ++
      (service.history actions).executions.filterMap Execution.recorded? :=
  (replays_of_run ran).times

namespace Service

/-- The replies that were written, each with the item it is for, session after session. -/
def answered (service : Service) (history : History) : List (Reception × Reply) :=
  (List.range service.sessions.size).flatMap fun position =>
    (history.receptionsOf position).zip
      ((service.sessions[position]?.map (·.written.toList)).getD [])

/-- How many of the replies that were written tell of the success of a sweep. -/
def acknowledged (service : Service) (history : History) : Nat :=
  (service.answered history).countP fun (reception, reply) =>
    reception.item.isSweep && reply.isOk

/-- What the recorded times have to do with the jobs that were run. -/
structure Recorded (service : Service) (history : History) : Prop where
  times : service.timings.times.toList = history.executions.filterMap Execution.recorded?
  succeeds : ∀ execution ∈ history.executions,
    execution.recorded?.isSome = execution.job.succeeds
  replied : ∀ execution ∈ history.executions, execution.job.isSweep = true →
    execution.reply.isOk = execution.job.succeeds
  told : ∀ execution ∈ history.executions, execution.job = .statistic .requests →
    ∀ time count, execution.reply = .success time (.whole count) → count ≤ service.timings.size

/-- Recorded times stay, and others come behind them. -/
theorem times_step {service after : Service} {action : Action}
    (possible : service.step? action = some after) :
    service.timings.times.toList <+: after.timings.times.toList := by
  obtain ⟨-, -, timings⟩ | ⟨time, ticket, job, -, -, timings⟩ := execution_cases possible
  · exact timings ▸ List.prefix_refl _
  · rw [timings, (job.times_run ticket time service.timings).1]
    exact List.prefix_append _ _

/-- A run only adds times behind those that are recorded. -/
theorem times_run {service after : Service} {actions : List Action}
    (ran : service.run? actions = some after) :
    service.timings.times.toList <+: after.timings.times.toList := by
  induction actions generalizing service with
  | nil =>
    obtain rfl := Option.some.inj ran
    exact List.prefix_refl _
  | cons action actions inductionHypothesis =>
    obtain ⟨next, possible, others⟩ := Option.bind_eq_some_iff.mp ran
    exact (times_step possible).trans (inductionHypothesis others)

/-- The number of recorded times does not fall. -/
theorem size_le_of_run {service after : Service} {actions : List Action}
    (ran : service.run? actions = some after) : service.timings.size ≤ after.timings.size :=
  (times_run ran).length_le

/-- A service with no recorded times has recorded those of no executions. -/
theorem recorded_empty {service : Service} (empty : service.timings = .empty) :
    service.Recorded {} := by
  refine ⟨?_, nofun, nofun, nofun⟩
  rw [empty]
  rfl

/-- What a job records and what it is told is settled when it is run. -/
theorem Recorded.step {service after : Service} {history : History} {action : Action}
    (recorded : service.Recorded history) (possible : service.step? action = some after) :
    after.Recorded (history.after service action) := by
  have fewer : service.timings.size ≤ after.timings.size := (times_step possible).length_le
  obtain ⟨-, nothing, timings⟩ | ⟨time, ticket, job, -, ran, timings⟩ := execution_cases possible
  · have same : (history.after service action).executions = history.executions := by
      rw [History.after, nothing]
      exact List.append_nil _
    refine ⟨?_, ?_, ?_, ?_⟩
    · rw [same, timings, recorded.times]
    · rw [same]
      exact recorded.succeeds
    · rw [same]
      exact recorded.replied
    · rw [same]
      intro execution member asks time count told
      exact Nat.le_trans (recorded.told execution member asks time count told) fewer
  · have more : (history.after service action).executions = history.executions ++
        [⟨ticket, job, (job.run time service.timings).1.reply⟩] := by
      rw [History.after, ran]
      rfl
    obtain ⟨times, succeeds⟩ := job.times_run ticket time service.timings
    refine ⟨?_, ?_, ?_, ?_⟩
    · rw [more, timings, times, recorded.times, List.filterMap_append]
      cases known : Execution.recorded? ⟨ticket, job, (job.run time service.timings).1.reply⟩ <;>
        simp [known]
    · intro execution member
      obtain old | new := List.mem_append.mp (more ▸ member)
      · exact recorded.succeeds execution old
      · obtain rfl := List.mem_singleton.mp new
        exact succeeds
    · intro execution member asks
      obtain old | new := List.mem_append.mp (more ▸ member)
      · exact recorded.replied execution old asks
      · obtain rfl := List.mem_singleton.mp new
        exact Job.isOk_run asks time service.timings
    · intro execution member asks now count told
      obtain old | new := List.mem_append.mp (more ▸ member)
      · exact Nat.le_trans (recorded.told execution old asks now count told) fewer
      · obtain rfl := List.mem_singleton.mp new
        obtain rfl : job = .statistic .requests := asks
        exact Job.count_of_run told ▸ fewer

/-- At the end of a run exactly the times of its executions have been added. -/
theorem Recorded.run {service after : Service} {history : History} {actions : List Action}
    (recorded : service.Recorded history) (ran : service.run? actions = some after) :
    after.Recorded (service.historyFrom history actions) := by
  induction actions generalizing service history with
  | nil =>
    obtain rfl := Option.some.inj ran
    exact recorded
  | cons action actions inductionHypothesis =>
    obtain ⟨next, possible, others⟩ := Option.bind_eq_some_iff.mp ran
    rw [historyFrom, possible]
    exact inductionHypothesis (recorded.step possible) others

/-- As many times are recorded as jobs were run that are sweeps and succeeded. -/
theorem Recorded.size {service : Service} {history : History}
    (recorded : service.Recorded history) :
    service.timings.size = history.executions.countP (·.job.succeeds) := by
  rw [Timings.size, ← Array.length_toList, recorded.times, List.length_filterMap_eq_countP]
  exact List.countP_congr fun execution member => by rw [recorded.succeeds execution member]

end Service

/-- A list is made of its parts with one key each, up to the order. -/
theorem perm_flatMap_filter_key {α : Type} (key : α → Nat) (items : List α) (bound : Nat) :
    ((List.range bound).flatMap fun part => items.filter (key · = part)).Perm
      (items.filter (key · < bound)) := by
  induction bound with
  | zero => simp
  | succ bound inductionHypothesis =>
    rw [List.range_succ, List.flatMap_append, List.flatMap_singleton]
    refine (inductionHypothesis.append_right _).trans ?_
    have parts := List.filter_append_perm (key · < bound) (items.filter (key · < bound + 1))
    rw [List.filter_filter, List.filter_filter] at parts
    convert parts using 3 with item item
    · grind
    · grind

namespace Service

section

variable {first service : Service} {history : History}

/-- What was written on a connection settles items that were taken from it, and which settles
which is told by the order alone. -/
theorem Accounted.answered_position (accounted : Accounted first service history) {position : Nat}
    {session : Session} (stands : service.sessions[position]? = some session) :
    ∃ taken, taken <+: history.receptionsOf position ∧
      (history.receptionsOf position).zip session.written.toList =
        taken.zip session.written.toList ∧
      List.Forall₂ (Settles history.executions) taken session.written.toList := by
  have place : position < first.sessions.size := by
    rw [← accounted.size]
    exact (Array.getElem?_eq_some_iff.mp stands).1
  have follows := accounted.sessions position _ session (Array.getElem?_eq_getElem place) stands
  obtain ⟨answered, queued, lost, parts, replies, -, -⟩ := follows.parts
  refine ⟨answered, ?_, ?_, replies⟩
  · rw [parts, List.append_assoc]
    exact List.prefix_append _ _
  · have aligned : (answered ++ (queued ++ lost)).zip (session.written.toList ++ []) =
        answered.zip session.written.toList ++ (queued ++ lost).zip [] :=
      List.zip_append replies.length_eq
    rw [List.append_nil, List.zip_nil_right, List.append_nil] at aligned
    rw [parts, List.append_assoc, aligned]

/-- What was written settles the item that it is paired with. -/
theorem Accounted.settles_of_answered (accounted : Accounted first service history)
    {reception : Reception} {reply : Reply}
    (member : (reception, reply) ∈ service.answered history) :
    Settles history.executions reception reply := by
  obtain ⟨position, inside, paired⟩ := List.mem_flatMap.mp member
  have place := List.mem_range.mp inside
  have stands := Array.getElem?_eq_getElem place
  obtain ⟨taken, -, aligned, replies⟩ := accounted.answered_position stands
  rw [stands, Option.map_some, Option.getD_some, aligned] at paired
  exact (List.forall₂_iff_zip.mp replies).2 paired

/-- No item is answered twice. -/
theorem Accounted.subperm_answered (accounted : Accounted first service history) :
    ((service.answered history).map Prod.fst).Subperm history.receptions := by
  have part : ∀ position ∈ List.range service.sessions.size,
      (((history.receptionsOf position).zip
        ((service.sessions[position]?.map (·.written.toList)).getD [])).map Prod.fst).Sublist
        (history.receptionsOf position) := by
    intro position inside
    have stands := Array.getElem?_eq_getElem (List.mem_range.mp inside)
    obtain ⟨taken, before, aligned, replies⟩ := accounted.answered_position stands
    rw [stands, Option.map_some, Option.getD_some, aligned,
      List.map_fst_zip (Nat.le_of_eq replies.length_eq)]
    exact before.sublist
  rw [answered, List.map_flatMap]
  refine (List.Sublist.flatMap_right _ part).subperm.trans ?_
  exact (perm_flatMap_filter_key Reception.session _ _).subperm.trans
    List.filter_sublist.subperm

/-- A success that was written for a sweep is that of a run that left its time among the recorded
times. -/
theorem Accounted.exists_recorded (accounted : Accounted first service history)
    (recorded : service.Recorded history) {reception : Reception} {reply : Reply}
    (member : (reception, reply) ∈ service.answered history)
    (asks : reception.item.isSweep = true) (succeeds : reply.isOk = true) :
    ∃ execution ∈ history.executions, reception.task? = some execution.task ∧
      execution.reply = reply ∧ execution.recorded?.isSome = true := by
  have answers := (accounted.settles_of_answered member).answers succeeds
  unfold Inbound.isSweep at asks
  cases answers with
  | reply given => simp [given] at asks
  | quit given => simp [given] at asks
  | @job session item job ticket reply submitted ran =>
    simp only [submitted] at asks
    refine ⟨⟨ticket, job, reply⟩, ran, by simp only [Reception.task?, submitted]; rfl, rfl, ?_⟩
    rw [recorded.succeeds _ ran, ← recorded.replied _ ran asks, succeeds]

/-- No more successes were written than times are recorded. -/
theorem Accounted.acknowledged_le (accounted : Accounted first service history)
    (recorded : service.Recorded history) :
    service.acknowledged history ≤ service.timings.size := by
  let told := (service.answered history).filter fun (reception, reply) =>
    reception.item.isSweep && reply.isOk
  let ticket (pair : Reception × Reply) : Option Nat := pair.1.task?.map Task.ticket
  have run : ∀ pair ∈ told, ∃ execution ∈ history.executions,
      ticket pair = some execution.ticket ∧ execution.job.succeeds = true := by
    intro pair member
    obtain ⟨inside, asks⟩ := List.mem_filter.mp member
    obtain ⟨sweep, succeeds⟩ := Bool.and_eq_true_iff.mp asks
    obtain ⟨execution, ran, task, -, counted⟩ :=
      accounted.exists_recorded recorded inside sweep succeeds
    refine ⟨execution, ran, ?_, recorded.succeeds execution ran ▸ counted⟩
    simp only [ticket, task]
    rfl
  have whole : (told.filterMap ticket).length = told.length := by
    refine List.filterMap_length_eq_length.mpr fun pair member => ?_
    obtain ⟨execution, -, known, -⟩ := run pair member
    rw [known]
    rfl
  have distinct : (told.filterMap ticket).Nodup := by
    have part : (told.map Prod.fst).Subperm history.receptions :=
      (List.filter_sublist.map Prod.fst).subperm.trans accounted.subperm_answered
    obtain ⟨some, same, inside⟩ := part
    have all := accounted.tickets
    rw [History.submissions, List.map_filterMap] at all
    have here :=
      ((inside.filterMap fun reception => reception.task?.map Task.ticket).nodup all).perm
      (same.filterMap _)
    rwa [List.filterMap_map] at here
  have inside : told.filterMap ticket ⊆
      (history.executions.filter (·.job.succeeds)).map Execution.ticket := by
    intro number member
    obtain ⟨pair, tells, known⟩ := List.mem_filterMap.mp member
    obtain ⟨execution, ran, same, succeeds⟩ := run pair tells
    obtain rfl := Option.some.inj (known.symm.trans same)
    exact List.mem_map_of_mem (List.mem_filter.mpr ⟨ran, succeeds⟩)
  have fewer := (List.subperm_of_subset distinct inside).length_le
  rw [whole, List.length_map, ← List.countP_eq_length_filter, ← List.countP_eq_length_filter,
    ← recorded.size] at fewer
  exact fewer

end

/-- What was taken stays in the history. -/
theorem prefix_receptions (history : History) (service : Service) (actions : List Action) :
    history.receptions <+: (service.historyFrom history actions).receptions := by
  induction actions generalizing service history with
  | nil => exact List.prefix_refl _
  | cons action actions inductionHypothesis =>
    rw [historyFrom]
    split
    next next _ =>
      exact (List.prefix_append _ _).trans (inductionHypothesis (history.after service action) next)
    next => exact List.prefix_refl _

/-- An item in the history of a run was taken by some action of it. -/
theorem exists_reading {service after : Service} {history : History} {actions : List Action}
    (ran : service.run? actions = some after) {position place : Nat} {reception : Reception}
    (taken : ((service.historyFrom history actions).receptionsOf position)[place]? =
      some reception) (new : (history.receptionsOf position).length ≤ place) :
    ∃ earlier behind asked next, actions = earlier ++ .read position :: behind ∧
      service.run? earlier = some asked ∧ asked.step? (.read position) = some next ∧
      next.run? behind = some after ∧ asked.reception? (.read position) = some reception ∧
      ((service.historyFrom history earlier).receptionsOf position).length = place := by
  induction actions generalizing service history with
  | nil =>
    have inside := (List.getElem?_eq_some_iff.mp taken).1
    exact absurd inside (Nat.not_lt_of_le new)
  | cons action actions inductionHypothesis =>
    obtain ⟨next, possible, others⟩ := Option.bind_eq_some_iff.mp ran
    rw [historyFrom, possible] at taken
    by_cases later : ((history.after service action).receptionsOf position).length ≤ place
    · -- The item in this place is taken later.
      obtain ⟨earlier, behind, asked, following, rfl, ranEarlier, read, rest, found, length⟩ :=
        inductionHypothesis others taken later
      refine ⟨action :: earlier, behind, asked, following, rfl, ?_, read, rest, found, ?_⟩
      · exact Option.bind_eq_some_iff.mpr ⟨next, possible, ranEarlier⟩
      · rw [historyFrom, possible]
        exact length
    · -- This action takes it: the session had no item in this place before and has one now.
      have grown : (history.after service action).receptionsOf position =
          history.receptionsOf position ++
            (service.reception? action).toList.filter (·.session = position) :=
        List.filter_append ..
      obtain ⟨rest, whole⟩ :=
        (prefix_receptions (history.after service action) next actions).filter
          (·.session = position)
      have here : ((history.after service action).receptionsOf position)[place]? =
          some reception := by
        rw [← taken]
        exact (List.getElem?_append_left (Nat.lt_of_not_le later)).symm.trans
          (congrArg (·[place]?) whole)
      rw [grown] at here later
      cases found : service.reception? action with
      | none =>
        simp [found] at later
        omega
      | some own =>
        simp only [found, Option.toList_some] at here later
        by_cases same : own.session = position
        · simp only [same, decide_true, List.filter_cons_of_pos, List.filter_nil,
            List.length_append, List.length_singleton] at here later
          have last : (history.receptionsOf position).length = place := by omega
          rw [← last, List.getElem?_concat_length] at here
          obtain rfl := Option.some.inj here
          obtain ⟨rfl, -⟩ := reception?_eq_some found
          subst same
          exact ⟨[], actions, service, next, rfl, rfl, possible, others, found, last⟩
        · simp [same] at later
          omega

/-- What a client is told that asks for the number of sweeps, in a run that begins as `first`. Its
line was read when the service was `asked`, after the actions `earlier`; the job was run when the
service was `told`, after the reading and the actions `between`. -/
structure Told (first asked told : Service) (earlier between : List Action)
    (position count : Nat) : Prop where
  asking : first.run? earlier = some asked
  telling : first.run? (earlier ++ .read position :: between) = some told
  exact : count = told.timings.size
  /-- Every success that was written to anybody before is counted. -/
  seen : asked.acknowledged (first.history earlier) ≤ count
  /-- Nothing is counted that was not submitted as a sweep by then. -/
  submitted : count ≤ (first.history (earlier ++ .read position :: between)).submissions.countP
    (·.job.isSweep)
  /-- Nobody was told of more before. -/
  since : ∀ execution ∈ (first.history (earlier ++ .read position :: between)).executions,
    execution.job = .statistic .requests →
      ∀ time fewer, execution.reply = .success time (.whole fewer) → fewer ≤ count

/-- What the recorded times are after a run, and what clients are told about them. -/
structure Counted (first after : Service) (actions : List Action) : Prop where
  /-- There is one recorded time for each run of a sweep that succeeded, and none for others. -/
  times : after.timings.times.toList =
    (first.history actions).executions.filterMap Execution.recorded?
  succeeds : ∀ execution ∈ (first.history actions).executions,
    execution.recorded?.isSome = execution.job.succeeds
  /-- No job is run twice, and none that was not submitted. -/
  once : ((first.history actions).executions.map Execution.ticket).Nodup
  own : ∀ execution ∈ (first.history actions).executions,
    execution.task ∈ (first.history actions).submissions
  /-- Recorded times stay, and others come behind them. -/
  grows : ∀ earlier behind middle, actions = earlier ++ behind →
    first.run? earlier = some middle →
      middle.timings.times.toList <+: after.timings.times.toList
  /-- The time of a sweep was recorded before its success was written. -/
  written : ∀ reception reply, (reception, reply) ∈ after.answered (first.history actions) →
    reception.item.isSweep = true → reply.isOk = true →
      ∃ execution ∈ (first.history actions).executions,
        reception.task? = some execution.task ∧ execution.reply = reply ∧
          execution.recorded?.isSome = true
  acknowledged : after.acknowledged (first.history actions) ≤ after.timings.size
  /-- Whoever asks for the number of sweeps is told how many there were when its job was run. -/
  requests : ∀ (position place : Nat) (session : Session) (reception : Reception)
    (time : Duration) (count : Nat), after.sessions[position]? = some session →
      ((first.history actions).receptionsOf position)[place]? = some reception →
      reception.item.statistic? = some .requests →
      session.written[place]? = some (.success time (.whole count)) →
        ∃ earlier between worker elapsed behind asked told ticket,
          actions = earlier ++ .read position :: (between ++ .execute worker elapsed :: behind) ∧
          ((first.history earlier).receptionsOf position).length = place ∧
          asked.reception? (.read position) = some reception ∧
          reception.task? = some ⟨ticket, .statistic .requests⟩ ∧
          told.execution? (.execute worker elapsed) =
            some ⟨ticket, .statistic .requests, .success time (.whole count)⟩ ∧
          Told first asked told earlier between position count

/-- The history grows with a step at the end of a run. -/
theorem history_concat {first service after : Service} {actions : List Action} {action : Action}
    (ran : first.run? actions = some service) (possible : service.step? action = some after) :
    first.history (actions ++ [action]) = (first.history actions).after service action := by
  rw [history, historyFrom_append ran, historyFrom, possible]
  rfl

/-- A job that is read now has not been run. -/
theorem Accounted.not_executed {first service after : Service} {history : History}
    {action : Action} (accounted : Accounted first service history)
    (later : Accounted first after (history.after service action)) {reception : Reception}
    (taken : service.reception? action = some reception)
    {execution : Execution Job} (submitted : reception.task? = some execution.task) :
    execution ∉ history.executions := by
  intro ran
  have tickets := later.tickets
  have more : (history.after service action).submissions =
      history.submissions ++ [execution.task] := by
    rw [History.submissions, History.after, taken, Option.toList_some,
      history.filterMap_task?_concat, submitted, Option.toList_some]
  rw [more, List.map_append] at tickets
  exact (List.nodup_append.mp tickets).2.2 _ (List.mem_map_of_mem (accounted.task_mem ran)) _
    (List.mem_singleton_self _) rfl

/-- A count that a job is told is the number of times recorded when it is run. -/
theorem count_of_execution? {service : Service} {action : Action} {ticket count : Nat}
    {time : Duration} (ran : service.execution? action =
      some ⟨ticket, .statistic .requests, .success time (.whole count)⟩) :
    count = service.timings.size := by
  cases action with
  | execute worker elapsed =>
    obtain ⟨task, -, same⟩ := Option.map_eq_some_iff.mp ran
    injection same with _ job told
    rw [job] at told
    exact Job.count_of_run told
  | read position => cases ran
  | write position => cases ran
  | start worker => cases ran
  | deliver worker => cases ran
  | stop => cases ran

/-- Not more times are recorded than sweeps were submitted. -/
theorem Accounted.size_le {first service : Service} {history : History}
    (accounted : Accounted first service history) (recorded : service.Recorded history) :
    service.timings.size ≤ history.submissions.countP (·.job.isSweep) := by
  have sweeps : ∀ execution ∈ history.executions, execution.job.succeeds = true →
      execution.job.isSweep = true := by
    rintro ⟨ticket, sweep | wanted, reply⟩ - succeeds
    · rfl
    · cases succeeds
  calc service.timings.size
    _ = history.executions.countP (·.job.succeeds) := recorded.size
    _ ≤ history.executions.countP (·.job.isSweep) := List.countP_mono_left sweeps
    _ = (history.executions.map Execution.task).countP (·.job.isSweep) := by
      rw [List.countP_map]
      rfl
    _ ≤ history.submissions.countP (·.job.isSweep) := accounted.ran.countP_le _

/-- A count that was written is what the job of its item came to. -/
theorem Accounted.exists_counting {first service : Service} {history : History}
    (accounted : Accounted first service history) {position place : Nat} {session : Session}
    (stands : service.sessions[position]? = some session) {reception : Reception}
    (taken : (history.receptionsOf position)[place]? = some reception)
    (asks : reception.item.statistic? = some .requests) {reply : Reply}
    (wrote : session.written[place]? = some reply) (succeeds : reply.isOk = true) :
    ∃ ticket, reception.task? = some ⟨ticket, .statistic .requests⟩ ∧
      ⟨ticket, .statistic .requests, reply⟩ ∈ history.executions := by
  have inside : position < first.sessions.size := by
    rw [← accounted.size]
    exact (Array.getElem?_eq_some_iff.mp stands).1
  have follows := accounted.sessions position _ session (Array.getElem?_eq_getElem inside) stands
  obtain ⟨own, same, settles⟩ := follows.reception_of_written wrote
  obtain rfl := Option.some.inj (taken.symm.trans same)
  unfold Inbound.statistic? at asks
  cases settles.answers succeeds with
  | reply given => simp [given] at asks
  | quit given => simp [given] at asks
  | @job session item job ticket reply submitted ran =>
    simp only [submitted] at asks
    cases job with
    | sweep sweep => cases asks
    | statistic wanted =>
      obtain rfl := Option.some.inj asks
      exact ⟨ticket, by simp only [Reception.task?, submitted], ran⟩

/-- Whatever the connections send, however many workers there are and however the parts of the
service interleave, and whether or not the pool stops, the recorded times are those of the sweeps
that succeeded, and a client that asks for their number is told how many there were between its
asking and its reply.

Proof: what a run records and what it is told is settled in the one step that runs a job, and later
steps only add to the recorded times. A success that was written is the answer to an item, so its
job was run before; different items are different jobs, and each left a time of its own. -/
theorem counted_of_run {first after : Service} {actions : List Action} {width : Nat}
    (pool : first.pool = .ofWidth width) (fresh : ∀ session ∈ first.sessions, session.Fresh)
    (empty : first.timings = .empty) (ran : first.run? actions = some after) :
    Counted first after actions := by
  have accounted {some : List Action} {middle : Service}
      (now : first.run? some = .some middle) : Accounted first middle (first.history some) :=
    accounted_of_run pool fresh now
  have recorded {some : List Action} {middle : Service} (now : first.run? some = .some middle) :
      middle.Recorded (first.history some) :=
    (recorded_empty empty).run now
  refine
    { times := (recorded ran).times
      succeeds := (recorded ran).succeeds
      once := (accounted ran).nodup_executed
      own := fun execution => (accounted ran).task_mem
      grows := ?_
      written := fun reception reply => (accounted ran).exists_recorded (recorded ran)
      acknowledged := (accounted ran).acknowledged_le (recorded ran)
      requests := ?_ }
  · rintro earlier behind middle rfl ranEarlier
    rw [run?_append, ranEarlier] at ran
    exact times_run ran
  · intro position place session reception time count stands taken asks wrote
    obtain ⟨ticket, task, answer⟩ :=
      (accounted ran).exists_counting stands taken asks wrote rfl
    obtain ⟨earlier, behind, asked, next, rfl, ranEarlier, read, rest, found, length⟩ :=
      exists_reading ran taken (Nat.zero_le _)
    have ranNext : first.run? (earlier ++ [.read position]) = some next := by
      rw [run?_append, ranEarlier, Option.bind_some]
      exact Option.bind_eq_some_iff.mpr ⟨next, read, rfl⟩
    have new : ⟨ticket, .statistic .requests, .success time (.whole count)⟩ ∉
        (first.history earlier).executions :=
      (accounted ranEarlier).not_executed (history_concat ranEarlier read ▸ accounted ranNext)
        found task
    have whole : first.history (earlier ++ .read position :: behind) =
        next.historyFrom ((first.history earlier).after asked (.read position)) behind := by
      rw [history, historyFrom_append ranEarlier, historyFrom, read]
      rfl
    obtain ⟨between, worker, elapsed, later, told, rfl, ranBetween, made⟩ :=
      exists_executing rest (whole ▸ answer) (by simpa [History.after, execution?] using new)
    have telling : first.run? (earlier ++ .read position :: between) = some told := by
      rw [run?_append, ranEarlier, Option.bind_some]
      exact Option.bind_eq_some_iff.mpr ⟨next, read, ranBetween⟩
    have settled := count_of_execution? made
    have more : asked.timings.size ≤ told.timings.size := by
      rw [run?_append, ranEarlier, Option.bind_some] at telling
      exact size_le_of_run telling
    refine ⟨earlier, between, worker, elapsed, later, asked, told, ticket, rfl, length, found, task,
      made, ranEarlier, telling, settled, ?_, ?_, ?_⟩
    · rw [settled]
      exact Nat.le_trans ((accounted ranEarlier).acknowledged_le (recorded ranEarlier)) more
    · rw [settled]
      exact (accounted telling).size_le (recorded telling)
    · rw [settled]
      exact (recorded telling).told

/-- A client whose first sweep succeeds and whose second fails, and that asks for the number. -/
def thrifty : Session :=
  .ofIntake
    { items := [(⟨0⟩, .line "COUNT_GRID;x:0:1:3"), (⟨1⟩, .line "MAX_GRID;x:0:1:3;x-"),
        (⟨2⟩, .line "STAT_REQS")]
      reason := .peerClosed
      closedAt := ⟨3⟩ }
    none

/-- Two such clients share two workers. -/
def shared : Service := { pool := .ofWidth 2, sessions := #[thrifty, thrifty] }

/-- The second client has its first reply before the sweep of the first client ends, and asks then.
Its job is run when both sweeps are recorded. -/
def entangled : List Action :=
  [.read 0, .read 1, .start 0, .start 1, .execute 1 ⟨5⟩, .deliver 1, .read 1, .write 1, .start 1,
    .read 1, .execute 1 ⟨2⟩, .execute 0 ⟨9⟩, .deliver 1, .start 1, .read 0, .execute 1 ⟨1⟩,
    .deliver 1, .write 1, .write 1]

/-- The second client is told of two sweeps, though that of the first one ended only after it had
asked. -/
theorem counted_of_run_entangled :
    ∃ after, shared.run? entangled = some after ∧ Counted shared after entangled ∧
      after.timings.size = 2 ∧
      ∃ earlier between asked told, Told shared asked told earlier between 1 2 := by
  have known : (shared.run? entangled).any (fun after => after.timings.size == 2 &&
      after.sessions[1]?.any fun session =>
        session.written[2]?.any fun reply => reply.told? == some 2) = true := by
    decide +kernel
  have asking : ((shared.history entangled).receptionsOf 1)[2]?.any (fun reception =>
      reception.item.statistic? == some .requests) = true := by
    decide +kernel
  obtain ⟨after, ran, figures⟩ := (Option.any_eq_true _ _).mp known
  obtain ⟨size, replies⟩ := Bool.and_eq_true_iff.mp figures
  obtain ⟨session, stands, replied⟩ := (Option.any_eq_true _ _).mp replies
  obtain ⟨reception, taken, asks⟩ := (Option.any_eq_true _ _).mp asking
  have fresh : thrifty.Fresh := Session.fresh_ofIntake _ _
  have pool : shared.pool = .ofWidth 2 := rfl
  have counted : Counted shared after entangled :=
    counted_of_run pool (by simpa [shared] using fresh) rfl ran
  refine ⟨after, ran, counted, by simpa using size, ?_⟩
  obtain ⟨reply, wrote, figure⟩ := (Option.any_eq_true _ _).mp replied
  obtain ⟨time, rfl⟩ := Reply.exists_of_told? (by simpa using figure)
  obtain ⟨earlier, between, worker, elapsed, behind, asked, told, ticket, -, -, -, -, -, tells⟩ :=
    counted.requests 1 2 session reception time 2 stands taken (by simpa using asks) wrote
  exact ⟨earlier, between, asked, told, tells⟩

end Service

end ParamSweep
