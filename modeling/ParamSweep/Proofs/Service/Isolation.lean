import ParamSweep.Proofs.Service.Replies
import ParamSweep.Proofs.Service.Sequential

/-!
# What other clients cannot change

Sessions share the pool and the recorded times. What a client sees of this are the times in its
replies, and the figures that it asks for. Everything else that is replied to it is settled by its
own items: a reply that is given at once by the item, and the reply of a sweep by the message, since
the job of a sweep looks neither at the recorded times nor at anything else of the service.

So two runs in which a connection brings in the same items differ in nothing else on this
connection, whatever the width of the pool, whatever other connections do, and however the parts of
the service interleave.
-/

namespace ParamSweep

/-- The reply to a sweep, without its time. -/
def Sweep.verdict (sweep : Sweep) : Reply :=
  match sweep.run with
  | .ok answer => .success .zero answer
  | .error fault => .ofFault fault

/-- The reply to an item, without its time, where the item alone settles it. -/
def Inbound.settled? (item : Inbound) : Option Reply :=
  match Dispatch.ofInbound item with
  | .reply reply | .quit reply => some reply.untimed
  | .submit (.sweep sweep) => some sweep.verdict
  | .submit (.statistic _) => none

/-- Only an item that asks for a statistic leaves its reply open. -/
theorem Inbound.isSome_settled? (item : Inbound) :
    item.settled?.isSome = item.statistic?.isNone := by
  unfold settled? statistic?
  cases Dispatch.ofInbound item with
  | reply reply => rfl
  | quit reply => rfl
  | submit job => cases job <;> rfl

/-- Two replies that keep to what an item settles are the same but for their times, unless the item
asks for a statistic. -/
theorem Inbound.untimed_eq_of_settled {item : Inbound} {reply other : Reply}
    (settles : ∀ settled, item.settled? = some settled → reply.untimed = settled)
    (otherSettles : ∀ settled, item.settled? = some settled → other.untimed = settled)
    (asks : item.statistic? = none) : reply.untimed = other.untimed := by
  have settled : item.settled?.isSome = true := by
    rw [item.isSome_settled?, asks]
    rfl
  obtain ⟨answer, known⟩ := Option.isSome_iff_exists.mp settled
  rw [settles answer known, otherSettles answer known]

/-- However long the job of a sweep takes and whatever times are recorded, it comes to the reply
that its message settles. -/
theorem Job.untimed_run_sweep (sweep : Sweep) (elapsed : Duration) (timings : Timings) :
    ((Job.sweep sweep).run elapsed timings).1.reply.untimed = sweep.verdict := by
  simp only [run, endSweep, Sweep.verdict]
  cases sweep.run <;> rfl

/-- A reply is the one that its item settles, if every job came to its own reply. -/
theorem Answers.untimed_eq {executions : List (Execution Job)} {reception : Reception}
    {reply settled : Reply} (answers : Answers executions reception reply)
    (own : ∀ execution ∈ executions,
      ∃ elapsed timings, execution.reply = (execution.job.run elapsed timings).1.reply)
    (known : reception.item.settled? = some settled) : reply.untimed = settled := by
  unfold Inbound.settled? at known
  cases answers with
  | reply given => simpa only [given, Option.some.injEq] using known
  | quit given => simpa only [given, Option.some.injEq] using known
  | @job session item job ticket reply submitted ran =>
    simp only [submitted] at known
    obtain ⟨elapsed, timings, came⟩ := own _ ran
    obtain rfl : reply = (job.run elapsed timings).1.reply := came
    cases job with
    | statistic wanted => cases known
    | sweep sweep => rw [Job.untimed_run_sweep, Option.some.inj known]

/-- A run on a live pool of some width, in which the connection at some position brings in some
items and its writer manages every reply; `final` is its session after the run. -/
structure Service.Serves (first after : Service) (actions : List Action) (position : Nat)
    (items : List Inbound) (final : Session) : Prop where
  pool : ∃ width, first.pool = .ofWidth width
  fresh : ∀ session ∈ first.sessions, session.Fresh
  began : ∃ session, first.sessions[position]? = some session ∧ session.incoming = items ∧
    session.capacity = none
  ran : first.run? actions = some after
  live : .stop ∉ actions
  stands : after.sessions[position]? = some final

namespace Service.Serves

variable {first after : Service} {actions : List Action} {position : Nat}
  {items : List Inbound} {final : Session}

/-- What holds of the service and its history holds after the run. -/
theorem sound (serves : first.Serves after actions position items final) :
    Sound first after (first.history actions) := by
  obtain ⟨width, pool⟩ := serves.pool
  exact (sound_fresh pool serves.fresh).run serves.ran serves.live

/-- The session has its items in order, and its writer has not ended. -/
theorem follows (serves : first.Serves after actions position items final) :
    ∃ session : Session, session.incoming = items ∧ final.severed = false ∧
      final.Follows session ((first.history actions).receptionsOf position)
        (first.history actions).executions := by
  obtain ⟨session, began, incoming, unlimited⟩ := serves.began
  have follows := serves.sound.sessions position session final began serves.stands
  exact ⟨session, incoming, follows.working unlimited, follows⟩

/-- What was written in a place answers the item in that place. -/
theorem untimed_written (serves : first.Serves after actions position items final) {place : Nat}
    {reply : Reply} (wrote : final.written[place]? = some reply) :
    ∃ item, (Session.handled items)[place]? = some item ∧
      ∀ settled, item.settled? = some settled → reply.untimed = settled := by
  obtain ⟨session, rfl, -, follows⟩ := serves.follows
  obtain ⟨reception, taken, answers⟩ := follows.item_of_written wrote
  exact ⟨reception.item, taken, fun settled known =>
    answers.untimed_eq (first.reply_of_mem_executions actions nofun) known⟩

/-- A session that is over has written one reply for each item that it takes. -/
theorem size_written (serves : first.Serves after actions position items final)
    (finished : final.isOver = true) :
    final.written.size = (Session.handled items).length := by
  obtain ⟨session, rfl, working, follows⟩ := serves.follows
  obtain ⟨taken, replies⟩ := follows.of_isOver working finished
  rw [← taken, List.length_map, replies.length_eq, Array.length_toList]

/-- Where nothing can happen any more, the session is over. -/
theorem isOver_of_stuck (serves : first.Serves after actions position items final)
    (stuck : ∀ action, action ≠ .stop → after.step? action = none) : final.isOver = true :=
  (serves.sound.of_stuck stuck).1 serves.stands

end Service.Serves

namespace Service

/-- Two runs in which a connection brings in the same items write the same replies on it, but for
their times and for the statistics it asks for. The runs may differ in everything else: in the width
of the pool, in the number of the other connections and what they bring in, in the times that jobs
take, and in the order of all actions. Whatever was written in a place by now answers the same item
in both runs; and runs that cannot go on any more have written a reply for each item that a session
takes, so that nothing is missing from the comparison.

Proof: what is written in a place is the answer to the item in that place, in either run. An item
that asks for no statistic settles its answer, and no other part of a run goes into it. -/
theorem replies_agree_of_serves {first after otherFirst otherAfter : Service}
    {actions otherActions : List Action} {position otherPosition : Nat} {items : List Inbound}
    {final otherFinal : Session} (serves : first.Serves after actions position items final)
    (other : otherFirst.Serves otherAfter otherActions otherPosition items otherFinal) :
    (∀ (place : Nat) (reply otherReply : Reply), final.written[place]? = some reply →
      otherFinal.written[place]? = some otherReply →
        ∃ item, (Session.handled items)[place]? = some item ∧
          (item.statistic? = none → reply.untimed = otherReply.untimed)) ∧
      (final.isOver = true → final.written.size = (Session.handled items).length) ∧
      (otherFinal.isOver = true → otherFinal.written.size = (Session.handled items).length) ∧
      ((∀ action, action ≠ .stop → after.step? action = none) → final.isOver = true) ∧
      ((∀ action, action ≠ .stop → otherAfter.step? action = none) →
        otherFinal.isOver = true) := by
  refine ⟨?_, serves.size_written, other.size_written, serves.isOver_of_stuck,
    other.isOver_of_stuck⟩
  intro place reply otherReply wrote otherWrote
  obtain ⟨item, stands, settles⟩ := serves.untimed_written wrote
  obtain ⟨same, otherStands, otherSettles⟩ := other.untimed_written otherWrote
  obtain rfl := Option.some.inj (stands.symm.trans otherStands)
  exact ⟨item, stands, Inbound.untimed_eq_of_settled settles otherSettles⟩

/-- A client that counts the points of a grid and asks for the number of sweeps. -/
def counting : Session :=
  .ofIntake
    { items := [(⟨0⟩, .line "COUNT_GRID;x:0:1:3"), (⟨1⟩, .line "STAT_REQS")]
      reason := .peerClosed
      closedAt := ⟨2⟩ }
    none

/-- The client has the only worker for itself. -/
def alone : List Action :=
  [.read 0, .start 0, .execute 0 ⟨7⟩, .deliver 0, .write 0, .read 0, .start 0, .execute 0 ⟨1⟩,
    .deliver 0, .write 0, .read 0]

/-- Another client sends the same, and its sweep ends first; the answer to the second item of the
client is known before that to the first. -/
def crowded : List Action :=
  [.read 0, .read 1, .start 2, .read 1, .start 0, .start 1, .execute 2 ⟨5⟩, .execute 1 ⟨2⟩,
    .deliver 1, .execute 0 ⟨9⟩, .deliver 0, .write 1, .write 1, .read 1]

/-- The client has the same replies alone and in a crowd, but for their times. -/
theorem replies_agree_of_serves_crowded :
    ∃ (after otherAfter : Service) (final otherFinal : Session),
      Serves { pool := .ofWidth 1, sessions := #[counting] } after alone 0
        counting.incoming final ∧
      Serves { pool := .ofWidth 3, sessions := #[counting, counting] } otherAfter crowded 1
        counting.incoming otherFinal ∧
      final.isOver = true ∧ otherFinal.isOver = true ∧
      ∃ reply otherReply, final.written[0]? = some reply ∧
        otherFinal.written[0]? = some otherReply ∧ reply.untimed = otherReply.untimed := by
  have wrote : (run? { pool := .ofWidth 1, sessions := #[counting] } alone).any
      (fun after => after.sessions[0]?.any fun session =>
        session.isOver && 0 < session.written.size) = true := by
    decide +kernel
  have otherWrote :
      (run? { pool := .ofWidth 3, sessions := #[counting, counting] } crowded).any
        (fun after => after.sessions[1]?.any fun session =>
          session.isOver && 0 < session.written.size) = true := by
    decide +kernel
  obtain ⟨after, ran, known⟩ := (Option.any_eq_true _ _).mp wrote
  obtain ⟨final, stands, ends⟩ := (Option.any_eq_true _ _).mp known
  obtain ⟨otherAfter, otherRan, otherKnown⟩ := (Option.any_eq_true _ _).mp otherWrote
  obtain ⟨otherFinal, otherStands, otherEnds⟩ := (Option.any_eq_true _ _).mp otherKnown
  simp only [Bool.and_eq_true, decide_eq_true_eq] at ends otherEnds
  have fresh : counting.Fresh := Session.fresh_ofIntake _ _
  have serves : Serves { pool := .ofWidth 1, sessions := #[counting] } after alone 0
      counting.incoming final :=
    ⟨⟨1, rfl⟩, by simpa using fresh, ⟨counting, rfl, rfl, rfl⟩, ran, by decide, stands⟩
  have other : Serves { pool := .ofWidth 3, sessions := #[counting, counting] } otherAfter
      crowded 1 counting.incoming otherFinal :=
    ⟨⟨3, rfl⟩, by simpa using fresh, ⟨counting, rfl, rfl, rfl⟩, otherRan, by decide, otherStands⟩
  refine ⟨after, otherAfter, final, otherFinal, serves, other, ends.1, otherEnds.1,
    final.written[0], otherFinal.written[0], Array.getElem?_eq_getElem ends.2,
    Array.getElem?_eq_getElem otherEnds.2, ?_⟩
  obtain ⟨item, first, same⟩ := (replies_agree_of_serves serves other).1 0 _ _
    (Array.getElem?_eq_getElem ends.2) (Array.getElem?_eq_getElem otherEnds.2)
  obtain rfl := Option.some.inj first
  exact same rfl

end Service

end ParamSweep
