import ParamSweep.Line.Intake
import ParamSweep.Proofs.Line.Certainty

/-!
# What a patient reader takes

A feed brings chunks of bytes. What it brings to a reader are occurrences: items, each at the
instant of the chunk with which it is known, and then perhaps the end or a failure. Chunks with
which no item comes to be known leave no trace among them.

A patient reader waits, from the start and then from each item on, for the next occurrence. It takes
one that is no later than its patience allows. If there is none, it gives up at the very instant at
which its patience ends. This law leaves no choice, and the intake of a feed obeys it.
-/

namespace ParamSweep

open Line

/-- What a reader may come upon. -/
inductive Occurrence
  | item (item : Inbound)
  | ended
  | failed (reason : String)
  deriving DecidableEq, Repr

namespace Feed

/-- What occurs once all bytes have arrived. The end makes a last line of what is left; a failure
makes nothing of it. -/
def occurrencesAtEnd (limit : Nat) (bytes : List UInt8) : FeedEnd → List Occurrence
  | .closed =>
    ((streamItems limit bytes).drop (knownItems limit bytes).length).map .item ++ [.ended]
  | .silence => []
  | .failure reason => [.failed reason]

/-- What occurs from `now` on, where `bytes` have arrived by now. -/
def occurrencesFrom (limit : Nat) (ending : FeedEnd) :
    (now : Duration) → (bytes : List UInt8) → List Arrival → List (Duration × Occurrence)
  | now, bytes, [] => (occurrencesAtEnd limit bytes ending).map (now, ·)
  | now, bytes, arrival :: arrivals =>
    let instant := now.add arrival.delay
    let more := bytes ++ arrival.bytes
    ((knownItems limit more).drop (knownItems limit bytes).length).map (instant, .item ·) ++
      occurrencesFrom limit ending instant more arrivals

/-- What a feed brings, each at its instant. -/
def occurrences (limit : Nat) (feed : Feed) : List (Duration × Occurrence) :=
  occurrencesFrom limit feed.ending .zero [] feed.arrivals

/-- Nothing occurs before it is its turn. -/
theorem le_of_mem_occurrencesFrom {limit : Nat} {ending : FeedEnd} {now : Duration}
    {bytes : List UInt8} {arrivals : List Arrival} {next : Duration × Occurrence}
    (member : next ∈ occurrencesFrom limit ending now bytes arrivals) :
    now.nanoseconds ≤ next.1.nanoseconds := by
  induction arrivals generalizing now bytes with
  | nil =>
    obtain ⟨occurrence, -, rfl⟩ := List.mem_map.mp member
    exact Nat.le_refl _
  | cons arrival arrivals inductionHypothesis =>
    have later : now.nanoseconds ≤ (now.add arrival.delay).nanoseconds := Nat.le_add_right _ _
    obtain here | behind := List.mem_append.mp member
    · obtain ⟨item, -, rfl⟩ := List.mem_map.mp here
      exact later
    · exact Nat.le_trans later (inductionHypothesis behind)

end Feed

/-- The law of a reader with a patience, which waits since an instant: it takes the next occurrence
unless that comes after its patience has ended. It then waits since the instant of the item that it
took, or closes at the instant of the end or of the failure. If everything comes too late, it closes
when its patience ends. -/
inductive Attends (patience : Duration) :
    (since : Duration) → List (Duration × Occurrence) → Intake → Prop
  | item {since instant : Duration} {item : Inbound} {occurrences : List (Duration × Occurrence)}
      {intake : Intake} (inTime : instant.nanoseconds ≤ (since.add patience).nanoseconds)
      (onwards : Attends patience instant occurrences intake) :
      Attends patience since ((instant, .item item) :: occurrences)
        { intake with items := (instant, item) :: intake.items }
  | ended {since instant : Duration} {occurrences : List (Duration × Occurrence)}
      (inTime : instant.nanoseconds ≤ (since.add patience).nanoseconds) :
      Attends patience since ((instant, .ended) :: occurrences)
        { items := [], reason := .peerClosed, closedAt := instant }
  | failed {since instant : Duration} {reason : String}
      {occurrences : List (Duration × Occurrence)}
      (inTime : instant.nanoseconds ≤ (since.add patience).nanoseconds) :
      Attends patience since ((instant, .failed reason) :: occurrences)
        { items := [], reason := .readFailed reason, closedAt := instant }
  | idle {since : Duration} {occurrences : List (Duration × Occurrence)}
      (late : ∀ next ∈ occurrences, (since.add patience).nanoseconds < next.1.nanoseconds) :
      Attends patience since occurrences
        { items := [], reason := .idle patience, closedAt := since.add patience }

namespace Attends

variable {patience since : Duration}

/-- The law leaves no choice: no occurrence is both in time and too late. -/
theorem unique {occurrences : List (Duration × Occurrence)} {intake other : Intake}
    (attends : Attends patience since occurrences intake)
    (otherAttends : Attends patience since occurrences other) : intake = other := by
  induction attends generalizing other with
  | item inTime onwards inductionHypothesis =>
    cases otherAttends with
    | item _ otherOnwards => rw [inductionHypothesis otherOnwards]
    | idle late => exact absurd inTime (Nat.not_le.mpr (late _ List.mem_cons_self))
  | ended inTime =>
    cases otherAttends with
    | ended => rfl
    | idle late => exact absurd inTime (Nat.not_le.mpr (late _ List.mem_cons_self))
  | failed inTime =>
    cases otherAttends with
    | failed => rfl
    | idle late => exact absurd inTime (Nat.not_le.mpr (late _ List.mem_cons_self))
  | idle late =>
    cases otherAttends with
    | item inTime => exact absurd inTime (Nat.not_le.mpr (late _ List.mem_cons_self))
    | ended inTime => exact absurd inTime (Nat.not_le.mpr (late _ List.mem_cons_self))
    | failed inTime => exact absurd inTime (Nat.not_le.mpr (late _ List.mem_cons_self))
    | idle => rfl

/-- Items of one instant are all in time if the first is. Without any, the reader waits on. -/
theorem batch {instant : Duration} (items : List Inbound)
    {occurrences : List (Duration × Occurrence)} {intake : Intake}
    (inTime : instant.nanoseconds ≤ (since.add patience).nanoseconds)
    (onwards : Attends patience (if items.isEmpty then since else instant) occurrences intake) :
    Attends patience since (items.map (instant, .item ·) ++ occurrences)
      (intake.after instant items) := by
  induction items generalizing since with
  | nil => exact onwards
  | cons item items inductionHypothesis =>
    have others : Attends patience instant (items.map (instant, .item ·) ++ occurrences)
        (intake.after instant items) := by
      refine inductionHypothesis (Nat.le_add_right _ _) ?_
      rw [ite_self]
      exact onwards
    exact .item inTime others

/-- What is taken from a feed from `now` on obeys the law. -/
theorem onwards {limit : Nat} {ending : FeedEnd} {now : Duration} {bytes : List UInt8}
    {decoder : Decoder} (reached : decoder.Reached limit bytes)
    (inTime : now.nanoseconds ≤ (since.add patience).nanoseconds) (arrivals : List Arrival) :
    Attends patience since (Feed.occurrencesFrom limit ending now bytes arrivals)
      (Intake.onwards patience ending now (since.add patience) decoder arrivals) := by
  induction arrivals generalizing now since bytes decoder with
  | nil =>
    cases ending with
    | closed =>
      -- The stream may end with a last line, and only then has the deadline moved.
      have left : (streamItems limit bytes).drop (knownItems limit bytes).length =
          decoder.finish.1 := by
        rw [← reached.finish, List.drop_left]
      have closes : Attends patience
          (if decoder.finish.1.isEmpty then since else now) [(now, .ended)]
          { items := [], reason := .peerClosed, closedAt := now } := by
        refine .ended ?_
        split
        · exact inTime
        · exact Nat.le_add_right _ _
      have taken := batch decoder.finish.1 inTime closes
      rw [Intake.after, List.append_nil] at taken
      rw [Feed.occurrencesFrom, Feed.occurrencesAtEnd, left, List.map_append, List.map_map]
      exact taken
    | silence => exact .idle nofun
    | failure reason => exact .failed inTime
  | cons arrival arrivals inductionHypothesis =>
    simp only [Feed.occurrencesFrom, Intake.onwards]
    by_cases late : (since.add patience).nanoseconds < (now.add arrival.delay).nanoseconds
    · rw [if_pos late]
      refine .idle fun next member => Nat.lt_of_lt_of_le late ?_
      obtain here | behind := List.mem_append.mp member
      · obtain ⟨item, -, rfl⟩ := List.mem_map.mp here
        exact Nat.le_refl _
      · exact Feed.le_of_mem_occurrencesFrom behind
    · obtain ⟨known, next⟩ := reached.receive arrival.bytes
      -- Bytes that complete no item leave the deadline where it is.
      have deadline : (if (decoder.receive arrival.bytes).1.isEmpty then since.add patience
          else (now.add arrival.delay).add patience) =
          (if (decoder.receive arrival.bytes).1.isEmpty then since
            else now.add arrival.delay).add patience :=
        (apply_ite (Duration.add · patience) _ _ _).symm
      rw [if_neg late, ← known, List.drop_left, deadline]
      refine batch _ (Nat.le_of_not_lt late) (inductionHypothesis next ?_)
      split
      · exact Nat.le_of_not_lt late
      · exact Nat.le_add_right _ _

/-- The intake of a feed obeys the law of a patient reader, and nothing else does. -/
theorem iff_eq_ofFeed (limit : Nat) (patience : Duration) (feed : Feed) (intake : Intake) :
    Attends patience .zero (feed.occurrences limit) intake ↔
      intake = .ofFeed limit patience feed := by
  have start : Duration.add .zero patience = patience :=
    congrArg Duration.mk (Nat.zero_add patience.nanoseconds)
  have obeys : Attends patience .zero (feed.occurrences limit) (.ofFeed limit patience feed) := by
    have whole : Attends patience .zero (feed.occurrences limit)
        (.onwards patience feed.ending .zero (Duration.zero.add patience) { limit }
          feed.arrivals) :=
      onwards (Decoder.reached_fresh limit) (Nat.zero_le _) feed.arrivals
    rwa [start] at whole
  constructor
  · exact fun attends => attends.unique obeys
  · rintro rfl
    exact obeys

end Attends

end ParamSweep
