import ParamSweep.Proofs.Line.Patience
import ParamSweep.Proofs.Service.Aftermath
import ParamSweep.Proofs.Service.Replies

/-!
# Sessions that fall idle

A session takes what its connection brings in while its patience lasts, and closes by itself when
nothing came to be known for too long. Neither the pool nor the writer has a part in this: when the
session closes, its replies may be queued, its jobs may be running or waiting, and the writer may
have ended. A writer that has not ended still writes a reply for everything that was taken.

A session that has closed comes to its end whether or not the pool stops: with a pool that goes on
its jobs are run, and with one that stopped the reply of every slot is known.
-/

namespace ParamSweep.Service

variable {service after : Service} {actions : List Action}

/-- A run takes no more actions than there is work to do, if one does not count the stops. -/
theorem countP_run (ran : service.run? actions = some after) :
    actions.countP (· ≠ .stop) + after.work ≤ service.work := by
  induction actions generalizing service with
  | nil =>
    obtain rfl := Option.some.inj ran
    simp
  | cons action actions inductionHypothesis =>
    obtain ⟨next, possible, others⟩ := Option.bind_eq_some_iff.mp ran
    have rest := inductionHypothesis others
    by_cases stops : action = .stop
    · subst stops
      have less := work_stop possible
      rw [List.countP_cons_of_neg (by simp)]
      exact Nat.le_trans rest less
    · have less := work_step possible stops
      rw [List.countP_cons_of_pos (by simpa using stops)]
      omega

/-- Where nothing can happen any more, every session is over, even if the pool has stopped. -/
theorem isOver_of_stuck {width position : Nat} {session : Session}
    (pool : service.pool = .ofWidth width) (fresh : ∀ other ∈ service.sessions, other.Fresh)
    (ran : service.run? actions = some after)
    (stuck : ∀ action, action ≠ .stop → after.step? action = none)
    (stands : after.sessions[position]? = some session) : session.isOver = true := by
  by_cases stops : .stop ∈ actions
  · obtain ⟨before, behind, rfl, live⟩ := List.eq_append_cons_of_mem stops
    obtain ⟨atStop, stopped, -, -, -, -, aftermath⟩ := exists_aftermath pool fresh ran live
    exact aftermath.ready.isOver_of_stuck stuck stands
  · have sound : Sound service after (service.history actions) :=
      (sound_fresh pool fresh).run ran stops
    exact (sound.of_stuck stuck).1 stands

/-- A session falls idle by what comes to be known of its connection, and by nothing else. For every
limit of lines, every patience and every feed, which cuts its bytes into chunks and times them as it
likes, the intake of the feed is the one that the law of a patient reader allows: an occurrence that
comes while patience lasts is taken, and if none does the reader closes at the instant at which its
patience ends, whatever bytes have come since its last item.

On whatever pool the session is served, beside whatever other sessions, whatever its writer manages
and in whichever order the parts of the service act, also where the pool stops: the session handles
the items of this intake up to one that quits, in order, and none that comes later; it closes for
the reason of the intake, if no item quits. It comes to its end after finitely many actions; if its
writer has not ended by then, as a writer without a limit never does, it has written one reply for
each item that was taken, in order, and each settles its item.

Proof: the reader takes what its decoder yields, and a decoder yields what is known of the stream.
The deadline is the patience after the last item, and it moves only with an item. What a session
takes and why it closes is settled when it begins, and nothing is lost by a writer that works. -/
theorem patient_of_run {width limit position : Nat} {patience : Duration} {feed : Feed}
    {capacity : Option Nat} (pool : service.pool = .ofWidth width)
    (fresh : ∀ other ∈ service.sessions, other.Fresh)
    (began : service.sessions[position]? =
      some (.ofIntake (.ofFeed limit patience feed) capacity))
    (ran : service.run? actions = some after) :
    (∀ intake, Attends patience .zero (feed.occurrences limit) intake ↔
      intake = .ofFeed limit patience feed) ∧
    ∃ final, after.sessions[position]? = some final ∧
      let intake := Intake.ofFeed limit patience feed
      let history := service.history actions
      let receptions := history.receptionsOf position
      receptions.map Reception.item <+: Session.handled (intake.items.map Prod.snd) ∧
      (final.closed.isSome = true →
        receptions.map Reception.item = Session.handled (intake.items.map Prod.snd) ∧
        final.closed = some (Session.closing (intake.items.map Prod.snd) intake.reason)) ∧
      actions.countP (· ≠ .stop) ≤ service.work ∧
      ((∀ action, action ≠ .stop → after.step? action = none) → final.isOver = true) ∧
      (final.severed = false → final.isOver = true →
        List.Forall₂ (Settles history.executions) receptions final.written.toList) ∧
      (capacity = none → final.severed = false) := by
  have accounted := accounted_of_run pool fresh ran
  obtain ⟨final, stands, follows⟩ := accounted.exists_session began
  refine ⟨Attends.iff_eq_ofFeed limit patience feed, final, stands, ⟨_, follows.taken.symm⟩, ?_,
    ?_, ?_, ?_, follows.working⟩
  · intro closed
    have reading : final.closed.isNone = false := by
      rw [← Option.not_isSome, closed]
      rfl
    have taken := follows.taken
    rw [reading, if_neg Bool.false_ne_true, List.append_nil] at taken
    constructor
    · exact taken.symm
    · rw [Session.closed_eq closed, reason_of_run ran began stands]
      rfl
  · have bound := countP_run ran
    omega
  · intro stuck
    exact isOver_of_stuck pool fresh ran stuck stands
  · intro working finished
    exact (follows.of_isOver working finished).2

/-- A client that sends a line, more than a line may have, and then the end of that and a further
line in small pieces, the last of them too late. -/
def trickling : Feed where
  arrivals :=
    [⟨⟨1⟩, "STAT_REQS\n0123456789abcdef".toUTF8.toList⟩, ⟨⟨3⟩, "gh\nSTAT".toUTF8.toList⟩,
      ⟨⟨2⟩, "_RE".toUTF8.toList⟩, ⟨⟨1⟩, "QS\n".toUTF8.toList⟩]
  ending := .closed

/-- The session closes before the job of its first item is run. -/
def closingEarly : List Action :=
  [.read 0, .read 0, .read 0, .start 0, .execute 0 ⟨7⟩, .deliver 0, .write 0, .write 0]

/-- Two items come in with the first bytes. What trickles in behind them makes no further item in
time, so the session closes as idle, and both replies are still written. -/
theorem patient_of_run_trickling :
    ∃ (after : Service) (final : Session),
      run?
          { pool := .ofWidth 1,
            sessions := #[.ofIntake (.ofFeed 12 ⟨5⟩ trickling) none] }
          closingEarly = some after ∧
      after.sessions[0]? = some final ∧
      Attends ⟨5⟩ .zero (trickling.occurrences 12) (.ofFeed 12 ⟨5⟩ trickling) ∧
      (Intake.ofFeed 12 ⟨5⟩ trickling).closedAt = ⟨6⟩ ∧
      final.closed = some (.idle ⟨5⟩) ∧ final.written.size = 2 := by
  let service : Service :=
    { pool := .ofWidth 1, sessions := #[.ofIntake (.ofFeed 12 ⟨5⟩ trickling) none] }
  have ends : (service.run? closingEarly).any (fun after =>
      after.sessions[0]?.any Session.isOver) = true := by
    decide +kernel
  obtain ⟨after, ran, known⟩ := (Option.any_eq_true _ _).mp ends
  have taken : (Intake.ofFeed 12 ⟨5⟩ trickling).items.map Prod.snd =
      [.line "STAT_REQS", .overlong] := by
    decide +kernel
  have closing : (Intake.ofFeed 12 ⟨5⟩ trickling).reason = .idle ⟨5⟩ ∧
      (Intake.ofFeed 12 ⟨5⟩ trickling).closedAt = ⟨6⟩ := by
    decide +kernel
  have fresh : ∀ other ∈ service.sessions, other.Fresh := Session.fresh_of_mem_singleton
  have began : service.sessions[0]? = some (.ofIntake (.ofFeed 12 ⟨5⟩ trickling) none) := rfl
  obtain ⟨law, final, stands, -, closes, -, -, replies, working⟩ :=
    patient_of_run rfl fresh began ran
  rw [stands, Option.any_some] at known
  obtain ⟨items, reason⟩ := closes (Bool.and_eq_true_iff.mp known).1
  have written := (replies (working rfl) known).length_eq
  refine ⟨after, final, ran, stands, (law _).mpr rfl, closing.2, ?_, ?_⟩
  · rw [reason, taken, closing.1]
    decide +kernel
  · have count := congrArg List.length items
    rw [List.length_map, taken] at count
    rw [← Array.length_toList, ← written, count]
    decide +kernel

end ParamSweep.Service
