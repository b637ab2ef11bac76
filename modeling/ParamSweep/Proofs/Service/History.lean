import ParamSweep.Proofs.Service.Custody
import ParamSweep.Service.Basic

/-!
# What happened in a run

A run is a list of actions, and the service after it does not tell everything that happened on
the way. The history of a run does: which items the readers took, each with the slot it was
given, and which jobs were run, each with its reply. A history grows with every action and
forgets nothing; it is read off the service before the action and changes nothing in it.
-/

namespace ParamSweep

/-- A reader took an item, and gave it a slot. -/
structure Reception where
  session : Nat
  item : Inbound
  slot : Slot

namespace Reception

/-- The job of an item that was submitted, with the ticket it got. -/
def task? (reception : Reception) : Option (Task Job) :=
  match Dispatch.ofInbound reception.item, reception.slot with
  | .submit job, .awaiting ticket => some ⟨ticket, job⟩
  | _, _ => none

/-- An item that is answered at once has its reply in its slot, and an item that is a job has the
ticket of the job. -/
inductive Fits : Reception → Prop
  | reply {session : Nat} {item : Inbound} {reply : Reply}
      (known : Dispatch.ofInbound item = .reply reply) : Fits ⟨session, item, .ready reply⟩
  | quit {session : Nat} {item : Inbound} {reply : Reply}
      (quits : Dispatch.ofInbound item = .quit reply) : Fits ⟨session, item, .ready reply⟩
  | job {session : Nat} {item : Inbound} {job : Job} {ticket : Nat}
      (submitted : Dispatch.ofInbound item = .submit job) :
      Fits ⟨session, item, .awaiting ticket⟩

end Reception

/-- What the readers and the workers did so far. -/
structure History where
  receptions : List Reception := []
  executions : List (Execution Job) := []

namespace History

/-- The jobs that were submitted, in order. -/
def submissions (history : History) : List (Task Job) :=
  history.receptions.filterMap Reception.task?

/-- What the reader of one session took. -/
def receptionsOf (history : History) (position : Nat) : List Reception :=
  history.receptions.filter (·.session = position)

/-- One more item adds its job. -/
theorem filterMap_task?_concat (history : History) (reception : Reception) :
    (history.receptions ++ [reception]).filterMap Reception.task? =
      history.submissions ++ reception.task?.toList := by
  rw [List.filterMap_append, submissions]
  cases submitted : reception.task? <;> simp [submitted]

/-- What the reader of one session takes is nothing to the others. -/
theorem receptionsOf_append (history : History) {more : List Reception} {position : Nat}
    (own : ∀ reception ∈ more, reception.session = position) (other : Nat) :
    receptionsOf { history with receptions := history.receptions ++ more } other =
      history.receptionsOf other ++ if position = other then more else [] := by
  simp only [receptionsOf, List.filter_append]
  congr 1
  by_cases same : position = other
  · rw [if_pos same]
    apply List.filter_eq_self.mpr
    intro reception member
    simp [own reception member, same]
  · rw [if_neg same]
    apply List.filter_eq_nil_iff.mpr
    intro reception member
    simp [own reception member, same]

end History

namespace Service

/-- The item that an action of a reader takes. -/
def reception? (service : Service) : Action → Option Reception
  | .read position => do
    let session ← service.sessions[position]?
    match session.closed, session.incoming with
    | none, item :: _ => some ⟨position, item, (Session.slotFor service.pool item).1⟩
    | _, _ => none
  | _ => none

/-- The job that an action of a worker runs. -/
def execution? (service : Service) : Action → Option (Execution Job)
  | .execute worker elapsed =>
    (service.pool.running? worker).map fun task =>
      ⟨task.ticket, task.job, (task.job.run elapsed service.timings).1.reply⟩
  | _ => none

end Service

namespace History

/-- The history after one more action. -/
def after (history : History) (service : Service) (action : Action) : History :=
  { receptions := history.receptions ++ (service.reception? action).toList
    executions := history.executions ++ (service.execution? action).toList }

end History

namespace Service

/-- The history of a run that starts with some history. -/
def historyFrom (history : History) (service : Service) : List Action → History
  | [] => history
  | action :: actions =>
    match service.step? action with
    | some next => next.historyFrom (history.after service action) actions
    | none => history

/-- The history of a run. -/
def history (service : Service) (actions : List Action) : History :=
  service.historyFrom {} actions

/-- A run is made of its parts. -/
theorem run?_append (service : Service) (before behind : List Action) :
    service.run? (before ++ behind) = (service.run? before).bind (·.run? behind) :=
  List.foldlM_append

/-- The history of a run goes on from the history of its first part. -/
theorem historyFrom_append {service middle : Service} {history : History} {before : List Action}
    (ran : service.run? before = some middle) (behind : List Action) :
    service.historyFrom history (before ++ behind) =
      middle.historyFrom (service.historyFrom history before) behind := by
  induction before generalizing service history with
  | nil =>
    obtain rfl := Option.some.inj ran
    rfl
  | cons action before inductionHypothesis =>
    obtain ⟨next, stepped, others⟩ := Option.bind_eq_some_iff.mp ran
    rw [List.cons_append, historyFrom, historyFrom, stepped]
    exact inductionHypothesis others

/-- A run of a job in the history of a run was made by some action of it. -/
theorem exists_executing {service after : Service} {history : History} {actions : List Action}
    (ran : service.run? actions = some after) {execution : Execution Job}
    (later : execution ∈ (service.historyFrom history actions).executions)
    (new : execution ∉ history.executions) :
    ∃ earlier worker elapsed behind told, actions = earlier ++ .execute worker elapsed :: behind ∧
      service.run? earlier = some told ∧
      told.execution? (.execute worker elapsed) = some execution := by
  induction actions generalizing service history with
  | nil => exact absurd later new
  | cons action actions inductionHypothesis =>
    obtain ⟨next, possible, others⟩ := Option.bind_eq_some_iff.mp ran
    rw [historyFrom, possible] at later
    by_cases now : execution ∈ (history.after service action).executions
    · obtain old | ran := List.mem_append.mp now
      · exact absurd old new
      · have made := Option.mem_toList.mp ran
        cases action with
        | execute worker elapsed =>
          exact ⟨[], worker, elapsed, actions, service, rfl, rfl, made⟩
        | read position => cases made
        | write position => cases made
        | start worker => cases made
        | deliver worker => cases made
        | stop => cases made
    · obtain ⟨earlier, worker, elapsed, behind, told, rfl, ranEarlier, made⟩ :=
        inductionHypothesis others later now
      exact ⟨action :: earlier, worker, elapsed, behind, told, rfl,
        Option.bind_eq_some_iff.mpr ⟨next, possible, ranEarlier⟩, made⟩

end Service

namespace Session

/-- Whether an item ends a session. -/
def quits (item : Inbound) : Bool :=
  match Dispatch.ofInbound item with
  | .quit _ => true
  | _ => false

/-- The items that a session takes: those up to the first that ends it, or all. -/
def handled : List Inbound → List Inbound
  | [] => []
  | item :: items => item :: if quits item then [] else handled items

end Session

/-- A reply is the one for an item that was taken: the reply given at once, the acknowledgement,
or the reply that the item's own job came to. -/
inductive Answers (executions : List (Execution Job)) : Reception → Reply → Prop
  | reply {session : Nat} {item : Inbound} {reply : Reply}
      (known : Dispatch.ofInbound item = .reply reply) :
      Answers executions ⟨session, item, .ready reply⟩ reply
  | quit {session : Nat} {item : Inbound} {reply : Reply}
      (quits : Dispatch.ofInbound item = .quit reply) :
      Answers executions ⟨session, item, .ready reply⟩ reply
  | job {session : Nat} {item : Inbound} {job : Job} {ticket : Nat} {reply : Reply}
      (submitted : Dispatch.ofInbound item = .submit job)
      (ran : ⟨ticket, job, reply⟩ ∈ executions) :
      Answers executions ⟨session, item, .awaiting ticket⟩ reply

/-- What was a reply stays one when more jobs are run. -/
theorem Answers.mono {executions more : List (Execution Job)} {reception : Reception}
    {reply : Reply} (answers : Answers executions reception reply)
    (kept : executions ⊆ more) : Answers more reception reply := by
  cases answers with
  | reply known => exact .reply known
  | quit quits => exact .quit quits
  | job submitted ran => exact .job submitted (kept ran)

end ParamSweep
