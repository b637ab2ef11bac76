import ParamSweep.Proofs.Reply.Framing
import ParamSweep.Proofs.Service.Replies
import ParamSweep.Proofs.Service.Stopping

/-!
# One line for one item

There are six ways to a reply: an item is answered at once, or ends the session, or its job is run,
crashes, is refused or is dropped. On each of them the reply is one line with the fields of its
kind. So the lines that a session sends are its replies: a client that cuts at the line feeds has as
many lines as replies were written, and each is the reply to the item in its place.

A job that crashes explains itself with a sentence from elsewhere, which is trusted to be plain. And
a time has to be one that can be stored: of a longer one no float need be left to write.
-/

namespace ParamSweep

/-- The replies that an item may get. -/
inductive Inbound.MayGet (item : Inbound) : Reply → Prop
  | atOnce {reply : Reply} (known : Dispatch.ofInbound item = .reply reply) : MayGet item reply
  | quit {reply : Reply} (known : Dispatch.ofInbound item = .quit reply) : MayGet item reply
  | ran {job : Job} (submitted : Dispatch.ofInbound item = .submit job) {elapsed : Duration}
      (stored : elapsed.nanoseconds < Duration.limit) (timings : Timings) :
      MayGet item (job.run elapsed timings).1.reply
  | crashed {job : Job} (submitted : Dispatch.ofInbound item = .submit job) {crash : Crash}
      (plain : Text.Plain crash.sentence.toList) : MayGet item (Outcome.crashed crash).reply
  | refused {job : Job} (submitted : Dispatch.ofInbound item = .submit job) :
      MayGet item (.ofFault (.service .poolClosed))
  | dropped {job : Job} (submitted : Dispatch.ofInbound item = .submit job) :
      MayGet item (.ofFault (.service .dropped))

namespace Inbound.MayGet

variable {item : Inbound} {reply : Reply}

/-- Whichever reply it is, it is the acknowledgement of the item that ends the session, a success
whose time can be stored, or a fault with a plain sentence. -/
theorem cases_of (mayGet : item.MayGet reply) :
    reply = .acknowledged ∧ Session.quits item = true ∨
      (∃ elapsed answer, elapsed.nanoseconds < Duration.limit ∧ reply = .success elapsed answer) ∧
        Session.quits item = false ∨
      (∃ fault : Fault, fault.IsPlain ∧ reply = .ofFault fault) ∧ Session.quits item = false := by
  cases mayGet with
  | atOnce known =>
    exact .inr (.inr ⟨Dispatch.exists_fault_of_reply known, by simp [Session.quits, known]⟩)
  | quit known =>
    exact .inl ⟨Dispatch.eq_acknowledged_of_quit known, by simp [Session.quits, known]⟩
  | @ran job submitted elapsed stored timings =>
    have goesOn : Session.quits item = false := by simp [Session.quits, submitted]
    obtain ⟨answer, same⟩ | ⟨fault, arises, same⟩ := job.reply_run_cases elapsed timings
    · exact .inr (.inl ⟨⟨elapsed, answer, stored, same⟩, goesOn⟩)
    · exact .inr (.inr ⟨⟨fault, arises.isPlain, same⟩, goesOn⟩)
  | @crashed job submitted crash plain =>
    exact .inr (.inr ⟨⟨.service (.other crash.sentence), plain, rfl⟩,
      by simp [Session.quits, submitted]⟩)
  | refused submitted =>
    exact .inr (.inr ⟨⟨_, by decide, rfl⟩, by simp [Session.quits, submitted]⟩)
  | dropped submitted =>
    exact .inr (.inr ⟨⟨_, by decide, rfl⟩, by simp [Session.quits, submitted]⟩)

/-- Every reply that an item may get is framed. -/
theorem framed (mayGet : item.MayGet reply) : reply.Framed := by
  obtain ⟨rfl, -⟩ | ⟨⟨elapsed, answer, stored, rfl⟩, -⟩ | ⟨⟨fault, plain, rfl⟩, -⟩ :=
    mayGet.cases_of
  · exact Reply.framed_acknowledged
  · exact Reply.framed_success stored answer
  · exact Reply.framed_ofFault plain

/-- Only the item that ends the session is acknowledged. -/
theorem eq_acknowledged_iff (mayGet : item.MayGet reply) :
    reply = .acknowledged ↔ Session.quits item = true := by
  obtain ⟨rfl, ends⟩ | ⟨⟨elapsed, answer, stored, rfl⟩, goesOn⟩ | ⟨⟨fault, plain, rfl⟩, goesOn⟩ :=
    mayGet.cases_of
  · simp [ends]
  · simp [goesOn]
  · simp [goesOn, Reply.ofFault]

end Inbound.MayGet

/-- What settles an item is a reply that it may get, if the jobs took times that can be stored. -/
theorem Settles.mayGet {executions : List (Execution Job)} {reception : Reception} {reply : Reply}
    (settles : Settles executions reception reply)
    (stored : ∀ execution ∈ executions, ∃ elapsed timings,
      elapsed.nanoseconds < Duration.limit ∧
        execution.reply = (execution.job.run elapsed timings).1.reply) :
    reception.item.MayGet reply := by
  cases settles with
  | answered answers =>
    cases answers with
    | reply known => exact .atOnce known
    | quit known => exact .quit known
    | @job session item job ticket reply submitted ran =>
      obtain ⟨elapsed, timings, small, same⟩ := stored _ ran
      obtain rfl : reply = (job.run elapsed timings).1.reply := same
      exact .ran submitted small timings
  | dropped submitted unrun => exact .dropped submitted
  | refused submitted => exact .refused submitted

namespace Session

/-- What a session has sent: a line feed behind each reply. -/
def output (session : Session) : List Char :=
  session.written.toList.flatMap fun reply => reply.text.toList ++ ['\n']

/-- The lines of what was sent are the replies. -/
theorem pieces_output {session : Session}
    (whole : ∀ reply ∈ session.written.toList, '\n' ∉ reply.text.toList) :
    Text.pieces '\n' session.output =
      (session.written.toList.map fun reply => reply.text.toList) ++ [[]] := by
  rw [Text.pieces_eq_splitOn, output]
  generalize session.written.toList = replies at whole
  induction replies with
  | nil => rfl
  | cons reply replies inductionHypothesis =>
    obtain ⟨own, others⟩ := List.forall_mem_cons.mp whole
    rw [List.flatMap_cons, List.append_assoc, List.singleton_append,
      List.splitOn_append_cons_self_of_not_mem own, inductionHypothesis others]
    rfl

end Session

namespace Service

/-- Every run of a job in a history took the time that its action gave it. -/
theorem exists_elapsed {service after : Service} {actions : List Action}
    (ran : service.run? actions = some after) {execution : Execution Job}
    (member : execution ∈ (service.history actions).executions) :
    ∃ worker elapsed timings, .execute worker elapsed ∈ actions ∧
      execution.reply = (execution.job.run elapsed timings).1.reply := by
  obtain ⟨earlier, worker, elapsed, behind, told, rfl, -, made⟩ :=
    exists_executing ran member List.not_mem_nil
  obtain ⟨task, -, rfl⟩ := Option.map_eq_some_iff.mp made
  exact ⟨worker, elapsed, told.timings,
    List.mem_append_right _ List.mem_cons_self, rfl⟩

/-- Replies keep the framing of the line. A reply that an item may get holds neither a line feed nor
a carriage return, and cut at its semicolons it has the one field `OK` for the item that ends the
session, `OK` with seconds and a result for a success, and `ERR` with one fault otherwise, whose
code stands in brackets before its sentence; and a client can tell which of these it is, and take it
apart. In a run of the service, whatever was recorded before it began, what a session sends falls
apart into its replies at the line feeds, and each is a reply that the item in its place may get. So
a session that is over and whose writer did not end has sent as many lines as it took items.

Proof: numbers have digits and points, and the sentences of faults are fixed, but for a name that
reads as one. What was written in a run settles its item, so it came in one of the ways in which an
item may get a reply. -/
theorem framed_of_run {service after : Service} {actions : List Action} {width position : Nat}
    {session : Session} (pool : service.pool = .ofWidth width)
    (fresh : ∀ other ∈ service.sessions, other.Fresh)
    (began : service.sessions[position]? = some session)
    (ran : service.run? actions = some after)
    (stored : ∀ worker elapsed, .execute worker elapsed ∈ actions →
      elapsed.nanoseconds < Duration.limit) :
    (∀ (item : Inbound) (reply : Reply), item.MayGet reply →
      reply.Framed ∧ (reply = .acknowledged ↔ Session.quits item = true)) ∧
    ∃ final, after.sessions[position]? = some final ∧
      (∀ (place : Nat) (reply : Reply), final.written[place]? = some reply →
        ∃ item, (Session.handled session.incoming)[place]? = some item ∧ item.MayGet reply) ∧
      Text.pieces '\n' final.output =
        (final.written.toList.map fun reply => reply.text.toList) ++ [[]] ∧
      (final.isOver = true → final.severed = false →
        final.written.size = (Session.handled session.incoming).length) := by
  have accounted := accounted_of_run pool fresh ran
  have place : position < after.sessions.size := by
    rw [accounted.size]
    exact (Array.getElem?_eq_some_iff.mp began).1
  have stands := Array.getElem?_eq_getElem place
  have follows := accounted.sessions position session _ began stands
  have times : ∀ execution ∈ (service.history actions).executions, ∃ elapsed timings,
      elapsed.nanoseconds < Duration.limit ∧
        execution.reply = (execution.job.run elapsed timings).1.reply := by
    intro execution member
    obtain ⟨worker, elapsed, timings, action, same⟩ := exists_elapsed ran member
    exact ⟨elapsed, timings, stored worker elapsed action, same⟩
  have written : ∀ (place : Nat) (reply : Reply),
      after.sessions[position].written[place]? = some reply →
        ∃ item, (Session.handled session.incoming)[place]? = some item ∧ item.MayGet reply := by
    intro place reply wrote
    obtain ⟨reception, taken, settles⟩ := follows.item_of_written wrote
    exact ⟨reception.item, taken, settles.mayGet times⟩
  refine ⟨fun item reply mayGet => ⟨mayGet.framed, mayGet.eq_acknowledged_iff⟩,
    _, stands, written, ?_, fun finished working => ?_⟩
  · refine Session.pieces_output fun reply member => ?_
    obtain ⟨place, wrote⟩ := List.getElem?_of_mem member
    rw [Array.getElem?_toList] at wrote
    obtain ⟨item, -, mayGet⟩ := written place reply wrote
    exact mayGet.framed.line.1
  · obtain ⟨items, replies⟩ := follows.of_isOver working finished
    rw [← items, List.length_map, replies.length_eq, Array.length_toList]

/-- A client that counts, uses a variable it has not declared, sends a line that is too long and
says good bye. -/
def careless : Session :=
  .ofIntake
    { items := [(⟨0⟩, .line "COUNT_GRID;x:0:1:3"), (⟨1⟩, .line "MAX_GRID;x:0:1:1;xx+1"),
        (⟨2⟩, .overlong), (⟨3⟩, .line "BYE")]
      reason := .peerClosed
      closedAt := ⟨4⟩ }
    none

/-- Both jobs are run, the first for one second and a quarter. -/
def unhurried : List Action :=
  [.read 0, .start 0, .execute 0 ⟨1250000000⟩, .deliver 0, .read 0, .read 0, .start 0,
    .execute 0 ⟨7⟩, .deliver 0, .read 0, .write 0, .write 0, .write 0, .write 0]

/-- The output for this client is four lines, one for each of its replies. -/
theorem framed_of_run_unhurried :
    ∃ (after : Service) (final : Session),
      run? { pool := .ofWidth 1, sessions := #[careless] } unhurried = some after ∧
      after.sessions[0]? = some final ∧
      final.output = ("OK;1.250;4\nERR;(InvalidExpression) Unknown variable xx\n" ++
        "ERR;(Exception) Message exceeds the maximum line length\nOK\n").toList ∧
      Text.pieces '\n' final.output =
        (final.written.toList.map fun reply => reply.text.toList) ++ [[]] ∧
      final.written.size = 4 := by
  let service : Service := { pool := .ofWidth 1, sessions := #[careless] }
  have ends : (service.run? unhurried).any (fun after =>
      after.sessions[0]?.any fun final => final.isOver && !final.severed &&
        final.output == ("OK;1.250;4\nERR;(InvalidExpression) Unknown variable xx\n" ++
          "ERR;(Exception) Message exceeds the maximum line length\nOK\n").toList) = true := by
    decide +kernel
  obtain ⟨after, ran, known⟩ := (Option.any_eq_true _ _).mp ends
  have fresh : ∀ other ∈ service.sessions, other.Fresh := Session.fresh_of_mem_singleton
  have began : service.sessions[0]? = some careless := rfl
  have stored : ∀ worker elapsed, .execute worker elapsed ∈ unhurried →
      elapsed.nanoseconds < Duration.limit := by
    intro worker elapsed member
    simp only [unhurried, List.mem_cons, Action.execute.injEq, reduceCtorEq, List.not_mem_nil,
      false_or, or_false] at member
    obtain ⟨-, rfl⟩ | ⟨-, rfl⟩ := member <;> decide
  obtain ⟨-, final, stands, -, lines, size⟩ := framed_of_run rfl fresh began ran stored
  rw [stands, Option.any_some, Bool.and_eq_true, Bool.and_eq_true, beq_iff_eq,
    Bool.not_eq_true'] at known
  obtain ⟨⟨finished, working⟩, sent⟩ := known
  have handled : (Session.handled careless.incoming).length = 4 := by decide +kernel
  exact ⟨after, final, ran, stands, sent, lines, (size finished working).trans handled⟩

end Service

end ParamSweep
