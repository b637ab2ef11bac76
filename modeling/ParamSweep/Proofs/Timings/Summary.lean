import ParamSweep.Dispatch
import ParamSweep.Proofs.Timings.Average

/-!
# What a summary says about the recorded times

A summary is made of the times that were recorded and of nothing else: requests for statistics that
are served in between leave no trace, and the order of the times does not count. There is none
exactly if the times add up to more than can be stored. Otherwise its figures are the number of the
times, the longest of them, and as long as the number fits into 32 bits their sum divided by it,
rounded down.
-/

namespace ParamSweep

namespace Duration

/-- A duration is its number of nanoseconds. -/
theorem ext_nanoseconds {first second : Duration}
    (same : first.nanoseconds = second.nanoseconds) : first = second := by
  cases first
  cases second
  exact congrArg _ same

/-- The longer of two durations is one of them. -/
theorem max_cases (first second : Duration) :
    first.max second = first ∧ second.nanoseconds ≤ first.nanoseconds ∨
      first.max second = second ∧ first.nanoseconds ≤ second.nanoseconds := by
  rw [max]
  split
  next less => exact .inr ⟨rfl, less.le⟩
  next notLess => exact .inl ⟨rfl, Nat.not_lt.mp notLess⟩

/-- The longest of some durations and one more is one of them, and none of them is longer. -/
theorem foldl_max (durations : List Duration) (start : Duration) :
    durations.foldl max start ∈ start :: durations ∧
      ∀ duration ∈ start :: durations,
        duration.nanoseconds ≤ (durations.foldl max start).nanoseconds := by
  induction durations generalizing start with
  | nil => exact ⟨List.mem_cons_self, by simp⟩
  | cons first durations inductionHypothesis =>
    obtain ⟨member, above⟩ := inductionHypothesis (start.max first)
    obtain ⟨own, others⟩ := List.forall_mem_cons.mp above
    rw [List.foldl_cons]
    obtain ⟨chosen, less⟩ | ⟨chosen, less⟩ := max_cases start first
    · rw [chosen] at member own others ⊢
      refine ⟨?_, List.forall_mem_cons.mpr ⟨own, List.forall_mem_cons.mpr ⟨less.trans own, others⟩⟩⟩
      exact (List.sublist_cons_self first durations).cons_cons start |>.subset member
    · rw [chosen] at member own others ⊢
      exact ⟨List.mem_cons_of_mem _ member,
        List.forall_mem_cons.mpr ⟨less.trans own, List.forall_mem_cons.mpr ⟨own, others⟩⟩⟩

/-- None of some durations is longer than the longest. -/
theorem le_longest {durations : List Duration} {duration : Duration}
    (member : duration ∈ durations) :
    duration.nanoseconds ≤ (longest durations).nanoseconds :=
  (foldl_max durations zero).2 duration (List.mem_cons_of_mem _ member)

/-- The longest of some durations is one of them. If it takes no time, none of them takes any. -/
theorem longest_mem {durations : List Duration} (some : durations ≠ []) :
    longest durations ∈ durations := by
  obtain none | member := List.mem_cons.mp (foldl_max durations zero).1
  · obtain ⟨first, rest, rfl⟩ := List.exists_cons_of_ne_nil some
    have least := le_longest (List.mem_cons_self (a := first) (l := rest))
    rw [longest, none] at least ⊢
    have same : zero = first := (ext_nanoseconds (Nat.le_zero.mp least)).symm
    exact same ▸ List.mem_cons_self
  · exact member

/-- The order of durations does not change which is the longest. -/
theorem longest_perm {durations others : List Duration} (same : durations.Perm others) :
    longest durations = longest others := by
  have below {these those : List Duration} (same : these.Perm those) :
      (longest these).nanoseconds ≤ (longest those).nanoseconds :=
    (foldl_max those zero).2 _ ((same.cons zero).subset (foldl_max these zero).1)
  exact ext_nanoseconds (Nat.le_antisymm (below same) (below same.symm))

/-- Durations add up to the same in any order. -/
theorem total_perm {durations others : List Duration} (same : durations.Perm others) :
    total durations = total others :=
  (same.map nanoseconds).sum_eq

/-- Durations take no more in all than each of them would if it were the longest. -/
theorem total_le (durations : List Duration) :
    total durations ≤ durations.length * (longest durations).nanoseconds := by
  have bounded := List.sum_le_card_nsmul (durations.map nanoseconds)
    (longest durations).nanoseconds
  simp only [List.length_map, smul_eq_mul, List.forall_mem_map] at bounded
  exact bounded fun duration member => le_longest member

end Duration

namespace Timings

open Duration (total limit)

/-- The figures about some times, as they should be. -/
structure Summary.Describes (summary : Summary) (times : List Duration) : Prop where
  requests : summary.requests = times.length
  average : times.length < 2 ^ 32 →
    summary.average.nanoseconds = total times / times.length
  average_le : times.length < 2 ^ 32 →
    summary.average.nanoseconds ≤ summary.longest.nanoseconds
  longest_mem : times ≠ [] → summary.longest ∈ times
  le_longest : ∀ time ∈ times, time.nanoseconds ≤ summary.longest.nanoseconds
  ofNone : times = [] → summary.average = .zero ∧ summary.longest = .zero

/-- What timings are used for: a time is recorded, or a request for a statistic is served. -/
inductive Use
  | record (elapsed : Duration)
  | serve (statistic : Statistic) (elapsed : Duration)

/-- The timings after a use of them. -/
def Use.on (timings : Timings) : Use → Timings
  | record elapsed => timings.record elapsed
  | serve statistic elapsed => ((Job.statistic statistic).run elapsed timings).2

/-- The time that a use records. -/
def Use.recorded? : Use → Option Duration
  | record elapsed => some elapsed
  | serve _ _ => none

/-- The timings after some uses, none recorded before. -/
def after (uses : List Use) : Timings := uses.foldl Use.on empty

/-- The times that some uses record. -/
def recorded (uses : List Use) : List Duration := uses.filterMap Use.recorded?

/-- A use leaves its time behind the others, if it is one that records a time. -/
theorem times_on (timings : Timings) (use : Use) :
    (use.on timings).times.toList = timings.times.toList ++ use.recorded?.toList := by
  cases use with
  | record elapsed => exact Array.toList_push
  | serve statistic elapsed =>
    rw [Use.on, Job.run, Job.endStatistic]
    split <;> exact (List.append_nil _).symm

/-- Nothing but the recorded times is kept, in their order. -/
theorem times_after (uses : List Use) : (after uses).times.toList = recorded uses := by
  have kept (timings : Timings) : (uses.foldl Use.on timings).times.toList =
      timings.times.toList ++ recorded uses := by
    induction uses generalizing timings with
    | nil => exact (List.append_nil _).symm
    | cons use uses inductionHypothesis =>
      rw [List.foldl_cons, inductionHypothesis, times_on, List.append_assoc, recorded, recorded,
        List.filterMap_cons]
      cases use.recorded? <;> rfl
  exact kept empty

/-- As many times are stored as were recorded. -/
theorem size_after (uses : List Use) : (after uses).size = (recorded uses).length := by
  rw [size, ← times_after, Array.length_toList]

/-- What is summed up is what was recorded. -/
theorem summary?_after (uses : List Use) :
    (after uses).summary? = (Duration.sum? (recorded uses)).bind fun sum =>
      (average? sum (recorded uses).length).bind fun average =>
        some ⟨(recorded uses).length, average, .longest (recorded uses)⟩ := by
  rw [summary?, times_after, size_after]
  rfl

/-- Times that can be added up have a summary. -/
theorem exists_summary? {uses : List Use} (stored : total (recorded uses) < limit) :
    ∃ average, average? ⟨total (recorded uses)⟩ (recorded uses).length = some average ∧
      (after uses).summary? =
        some ⟨(recorded uses).length, average, .longest (recorded uses)⟩ := by
  have sumStored : (Duration.mk (total (recorded uses))).nanoseconds < limit := stored
  obtain ⟨average, formed⟩ := exists_average? sumStored (recorded uses).length
  refine ⟨average, formed, ?_⟩
  rw [summary?_after, Duration.sum?_eq, if_pos stored, Option.bind_some, formed, Option.bind_some]

/-- There is no summary exactly if the recorded times add up to more than can be stored. -/
theorem summary?_eq_none_iff (uses : List Use) :
    (after uses).summary? = none ↔ limit ≤ total (recorded uses) := by
  by_cases stored : total (recorded uses) < limit
  · obtain ⟨average, -, found⟩ := exists_summary? stored
    simp [found, stored]
  · rw [summary?_after, Duration.sum?_eq, if_neg stored]
    simpa using stored

/-- As long as the number of times fits into 32 bits, the average is rounded down. -/
theorem average?_of_lt {sum average : Duration} {count : ℕ} (few : count < 2 ^ 32)
    (formed : average? sum count = some average) :
    average.nanoseconds = sum.nanoseconds / count := by
  unfold average? at formed
  split at formed
  next none =>
    rw [none, Nat.div_zero, ← Option.some.inj formed]
    rfl
  next =>
    rw [if_pos (show count < wholeLimit from few)] at formed
    rw [← Option.some.inj formed]

/-- The figures of a summary are what they should be. -/
theorem describes_of_summary? {uses : List Use} {summary : Summary}
    (found : (after uses).summary? = some summary) : summary.Describes (recorded uses) := by
  have stored : total (recorded uses) < limit := by
    by_contra beyond
    rw [(summary?_eq_none_iff uses).mpr (Nat.not_lt.mp beyond)] at found
    cases found
  obtain ⟨average, formed, own⟩ := exists_summary? stored
  obtain rfl := Option.some.inj (found.symm.trans own)
  refine ⟨rfl, fun few => average?_of_lt few formed, fun few => ?_, Duration.longest_mem,
    fun time member => Duration.le_longest member, fun none => ?_⟩
  · rw [average?_of_lt few formed]
    exact Nat.div_le_of_le_mul (Duration.total_le (recorded uses))
  · rw [none] at formed ⊢
    exact ⟨(Option.some.inj formed).symm, rfl⟩

/-- The figures about recorded times are exact. There are none exactly if the times add up to more
than can be stored. Otherwise they are the number of the times, their average, rounded down as long
as the number fits into 32 bits and then no longer than the longest, and the longest, both zero if
no time was recorded. Neither the order of the times nor the statistics that were asked for in
between make a difference.

Proof: only records are kept, so the figures are those of the recorded times. Partial sums do not
exceed the sum, so adding up fails only where the sum cannot be stored; and an average of times that
can be added up can be stored in any case. -/
theorem summary_of_uses (uses : List Use) :
    ((after uses).summary? = none ↔ limit ≤ total (recorded uses)) ∧
      (∀ summary, (after uses).summary? = some summary → summary.Describes (recorded uses)) ∧
      ∀ others, (recorded others).Perm (recorded uses) →
        (after others).summary? = (after uses).summary? := by
  refine ⟨summary?_eq_none_iff uses, fun summary found => describes_of_summary? found,
    fun others same => ?_⟩
  rw [summary?_after, summary?_after, Duration.sum?_eq, Duration.sum?_eq,
    Duration.total_perm same, same.length_eq, Duration.longest_perm same]

/-- Two times with a request for a statistic between them, and the same times the other way round
without it; and a nanosecond too much. -/
theorem summary_of_uses_between :
    let asked := [Use.record (.ofMilliseconds 100), .serve .averageTime .zero,
      .record (.ofMilliseconds 300)]
    let turned := [Use.record (.ofMilliseconds 300), .record (.ofMilliseconds 100)]
    (∃ summary, (after asked).summary? = some summary ∧
      summary.Describes [.ofMilliseconds 100, .ofMilliseconds 300] ∧
      summary.average = .ofMilliseconds 200 ∧ (after turned).summary? = some summary) ∧
    (after [.record ⟨limit - 1⟩, .record ⟨1⟩]).summary? = none := by
  intro asked turned
  have found : (after asked).summary? =
      some ⟨2, .ofMilliseconds 200, .ofMilliseconds 300⟩ := by decide +kernel
  obtain ⟨-, describes, reordered⟩ := summary_of_uses asked
  refine ⟨⟨_, found, describes _ found, rfl, ?_⟩, (summary_of_uses _).1.mpr (by decide)⟩
  exact (reordered turned (.swap _ _ [])).trans found

end Timings

end ParamSweep
