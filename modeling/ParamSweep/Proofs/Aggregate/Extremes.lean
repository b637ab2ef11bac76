import Mathlib.Data.List.Induction
import Mathlib.Data.Multiset.Basic
import Mathlib.Order.Bounds.Basic
import ParamSweep.Aggregate
import ParamSweep.Proofs.Number.Arithmetic

/-!
# The extremes of the values of a sweep

A tally counts the finite values it is given and passes over all others. It begins with an infinite
float for the least value and takes over every finite value that is less. Finite floats compare as
the numbers that they stand for, so after any number of values, at least one of them finite, the
least is one of the finite ones and stands for the least of their numbers; and the same the other
way round for the greatest. The infinite floats of the beginning are never seen, since without a
finite value every aggregate is zero.

Which of several floats it is that stand for the least number, a zero of either sign, is left to the
order of the values; the number itself is not.
-/

namespace ParamSweep

namespace Number

/-- Two floats stand for one number. -/
def Same (x y : Float) : Prop := ∃ number, value? x = some number ∧ value? y = some number

/-- The finite floats are those that stand for numbers. -/
theorem isFinite_eq (x : Float) : x.isFinite = (value? x).isSome := by
  have whole : x.isFinite = x.toModel.unpack.isFinite := rfl
  rw [whole, value?, ofFloat_eq]
  cases x.toModel.unpack <;> rfl

end Number

open Number

namespace Tally

/-- What a tally keeps of the numbers that its finite values stand for. -/
structure Spans (tally : Tally) (numbers : Multiset ℚ) : Prop where
  count : tally.count = numbers.card
  least : numbers = 0 ∧ Binary64.ofFloat tally.least = .infinite false ∨
    ∃ number, value? tally.least = some number ∧ IsLeast {n | n ∈ numbers} number
  greatest : numbers = 0 ∧ Binary64.ofFloat tally.greatest = .infinite true ∨
    ∃ number, value? tally.greatest = some number ∧ IsGreatest {n | n ∈ numbers} number

/-- A tally of nothing has counted nothing, and its extremes are infinite. -/
theorem spans_empty : empty.Spans 0 := by
  refine ⟨rfl, .inl ⟨rfl, ?_⟩, .inl ⟨rfl, ?_⟩⟩ <;> decide +kernel

section

variable {numbers : Multiset ℚ} {value old : Float} {number : ℚ}

/-- One selection law for both directions of the order: a value replaces the extreme so far if it
stands before it, so the one that is kept stands before all.

Proof: the first number is its own extreme. Afterwards the kept one stands before the other, and
this one before all numbers so far. -/
theorem extreme_cons (before : ℚ → ℚ → Prop) [IsPreorder ℚ before] {replaces : Prop}
    [Decidable replaces] (known : value? value = some number)
    (sofar : numbers = 0 ∧ replaces ∨
      ∃ extreme, value? old = some extreme ∧ (extreme ∈ numbers ∧ ∀ n ∈ numbers, before extreme n) ∧
        (replaces → before number extreme) ∧ (¬ replaces → before extreme number)) :
    ∃ extreme, value? (if replaces then value else old) = some extreme ∧
      extreme ∈ number ::ₘ numbers ∧ ∀ n ∈ number ::ₘ numbers, before extreme n := by
  obtain ⟨rfl, replaced⟩ | ⟨extreme, oldKnown, ⟨member, ahead⟩, replaced, kept⟩ := sofar
  · rw [if_pos replaced]
    exact ⟨number, known, by simp, by simp [refl_of before number]⟩
  · by_cases replacing : replaces
    · rw [if_pos replacing]
      refine ⟨number, known, Multiset.mem_cons_self _ _, Multiset.forall_mem_cons.mpr ⟨?_, ?_⟩⟩
      · exact refl_of before number
      · exact fun n inside => trans_of before (replaced replacing) (ahead n inside)
    · rw [if_neg replacing]
      exact ⟨extreme, oldKnown, Multiset.mem_cons_of_mem member,
        Multiset.forall_mem_cons.mpr ⟨kept replacing, ahead⟩⟩

/-- The lesser of a value and the least so far. -/
theorem least_cons (known : value? value = some number)
    (before : numbers = 0 ∧ Binary64.ofFloat old = .infinite false ∨
      ∃ least, value? old = some least ∧ IsLeast {n | n ∈ numbers} least) :
    ∃ least, value? (if value < old then value else old) = some least ∧
      IsLeast {n | n ∈ number ::ₘ numbers} least := by
  refine extreme_cons (· ≤ ·) known (before.imp ?_ ?_)
  · rintro ⟨none, infinite⟩
    exact ⟨none, lt_infinite known infinite⟩
  · rintro ⟨least, oldKnown, isLeast⟩
    have less := lt_iff known oldKnown
    exact ⟨least, oldKnown, isLeast, fun lesser => (less.mp lesser).le,
      fun notLesser => not_lt.mp (mt less.mpr notLesser)⟩

/-- The greater of a value and the greatest so far. -/
theorem greatest_cons (known : value? value = some number)
    (before : numbers = 0 ∧ Binary64.ofFloat old = .infinite true ∨
      ∃ greatest, value? old = some greatest ∧ IsGreatest {n | n ∈ numbers} greatest) :
    ∃ greatest, value? (if old < value then value else old) = some greatest ∧
      IsGreatest {n | n ∈ number ::ₘ numbers} greatest := by
  refine extreme_cons (· ≥ ·) known (before.imp ?_ ?_)
  · rintro ⟨none, infinite⟩
    exact ⟨none, infinite_lt known infinite⟩
  · rintro ⟨greatest, oldKnown, isGreatest⟩
    have more := lt_iff oldKnown known
    exact ⟨greatest, oldKnown, isGreatest, fun greater => (more.mp greater).le,
      fun notGreater => not_lt.mp (mt more.mpr notGreater)⟩

end

/-- A value that stands for a number is one more; any other is none. -/
theorem Spans.push {tally : Tally} {numbers : Multiset ℚ} (spans : tally.Spans numbers)
    (value : Float) :
    (tally.push value).Spans ((value? value).toList + numbers) := by
  cases known : value? value with
  | none =>
    have special : value.isFinite = false := by rw [isFinite_eq, known]; rfl
    simpa [Tally.push, special] using spans
  | some number =>
    have finite : value.isFinite = true := by rw [isFinite_eq, known]; rfl
    have more : (([number] : List ℚ) : Multiset ℚ) + numbers = number ::ₘ numbers :=
      Multiset.singleton_add _ _
    rw [Tally.push, if_pos finite, Option.toList_some, more]
    refine ⟨?_, .inr (least_cons known spans.least), .inr (greatest_cons known spans.greatest)⟩
    rw [Multiset.card_cons, ← spans.count]
    rfl

/-- The numbers that floats stand for, as far as they do. -/
def exacts (values : List Float) : Multiset ℚ := values.filterMap value?

/-- A value in front adds its number, if it stands for one. -/
theorem exacts_cons (value : Float) (values : List Float) :
    exacts (value :: values) = (value? value).toList + exacts values := by
  cases known : value? value with
  | none => simp [exacts, known]
  | some number => simp [exacts, known, ← Multiset.cons_coe]

/-- After any values a tally has what is kept of their numbers. -/
theorem Spans.foldl {tally : Tally} {numbers : Multiset ℚ} (spans : tally.Spans numbers)
    (values : List Float) : (values.foldl Tally.push tally).Spans (exacts values + numbers) := by
  induction values generalizing tally numbers with
  | nil => simpa [exacts] using spans
  | cons value values inductionHypothesis =>
    have others := inductionHypothesis (spans.push value)
    rwa [← add_assoc, add_comm (exacts values), ← exacts_cons] at others

/-- A tally of values keeps what there is to keep of their numbers. -/
theorem spans_foldl (values : List Float) : (values.foldl push empty).Spans (exacts values) := by
  have spans := spans_empty.foldl values
  rwa [add_zero] at spans

/-- Finite values are those that stand for numbers. -/
theorem card_exacts (values : List Float) :
    (exacts values).card = (values.filter Float.isFinite).length := by
  induction values with
  | nil => rfl
  | cons value values inductionHypothesis =>
    rw [exacts_cons, Multiset.card_add, inductionHypothesis, List.filter_cons, isFinite_eq]
    cases value? value with
    | none => simp
    | some number => simp [Nat.add_comm]

/-- There are no numbers exactly if no value is finite. -/
theorem exacts_eq_zero_iff {values : List Float} :
    exacts values = 0 ↔ values.filter Float.isFinite = [] := by
  rw [← Multiset.card_eq_zero, card_exacts, List.length_eq_zero_iff]

/-- A tally of nothing has infinite extremes. -/
theorem Spans.infinite {tally : Tally} (spans : tally.Spans 0) :
    Binary64.ofFloat tally.least = .infinite false ∧
      Binary64.ofFloat tally.greatest = .infinite true := by
  constructor
  · obtain ⟨-, infinite⟩ | ⟨number, -, member, -⟩ := spans.least
    · exact infinite
    · exact absurd member (Multiset.notMem_zero number)
  · obtain ⟨-, infinite⟩ | ⟨number, -, member, -⟩ := spans.greatest
    · exact infinite
    · exact absurd member (Multiset.notMem_zero number)

/-- The extremes of a tally are values that were pushed, as soon as one of these was finite.

Proof: by induction on the values from their end. The first finite value replaces the infinite
floats that the extremes begin with; every other one replaces an extreme or leaves it. -/
theorem extremes_mem (values : List Float) (some : values.filter Float.isFinite ≠ []) :
    (values.foldl push empty).least ∈ values.filter Float.isFinite ∧
      (values.foldl push empty).greatest ∈ values.filter Float.isFinite := by
  induction values using List.reverseRecOn with
  | nil => exact absurd rfl some
  | append_singleton values value inductionHypothesis =>
    rw [List.foldl_append, List.foldl_cons, List.foldl_nil, push]
    cases finite : value.isFinite with
    | false =>
      have same : (values ++ [value]).filter Float.isFinite = values.filter Float.isFinite := by
        simp [finite]
      rw [same] at some ⊢
      exact inductionHypothesis some
    | true =>
      have more : (values ++ [value]).filter Float.isFinite =
          values.filter Float.isFinite ++ [value] := by
        simp [finite]
      rw [more, if_pos rfl, pushFinite]
      by_cases none : values.filter Float.isFinite = []
      · obtain ⟨number, known⟩ := Option.isSome_iff_exists.mp (isFinite_eq value ▸ finite)
        have spans := spans_foldl values
        rw [exacts_eq_zero_iff.mpr none] at spans
        obtain ⟨least, greatest⟩ := spans.infinite
        simp only [if_pos (lt_infinite known least), if_pos (infinite_lt known greatest)]
        exact ⟨by simp, by simp⟩
      · obtain ⟨leastMember, greatestMember⟩ := inductionHypothesis none
        constructor
        · dsimp only
          split
          · exact List.mem_append_right _ List.mem_cons_self
          · exact List.mem_append_left _ leastMember
        · dsimp only
          split
          · exact List.mem_append_right _ List.mem_cons_self
          · exact List.mem_append_left _ greatestMember

/-- The extremes of a tally are among some finite values, and none of these is beyond them. -/
structure HasExtremes (tally : Tally) (finite : List Float) : Prop where
  least_mem : tally.finish .least ∈ finite
  least_le : ∀ value ∈ finite, tally.finish .least ≤ value
  greatest_mem : tally.finish .greatest ∈ finite
  le_greatest : ∀ value ∈ finite, value ≤ tally.finish .greatest

/-- A tally that counted finite values has their extremes. -/
theorem hasExtremes_foldl {values : List Float} (some : values.filter Float.isFinite ≠ []) :
    (values.foldl push empty).HasExtremes (values.filter Float.isFinite) := by
  have spans := spans_foldl values
  obtain ⟨leastMember, greatestMember⟩ := extremes_mem values some
  have apart : exacts values ≠ 0 := mt exacts_eq_zero_iff.mp some
  have counted : (values.foldl push empty).count ≠ 0 := by
    rwa [spans.count, Ne, Multiset.card_eq_zero]
  have number {value : Float} (member : value ∈ values.filter Float.isFinite) :
      ∃ number, value? value = Option.some number ∧ number ∈ exacts values := by
    obtain ⟨pushed, finite⟩ := List.mem_filter.mp member
    obtain ⟨number, known⟩ := Option.isSome_iff_exists.mp (isFinite_eq value ▸ finite)
    exact ⟨number, known, List.mem_filterMap.mpr ⟨value, pushed, known⟩⟩
  obtain ⟨least, leastKnown, -, below⟩ := spans.least.resolve_left fun none => apart none.1
  obtain ⟨greatest, greatestKnown, -, above⟩ :=
    spans.greatest.resolve_left fun none => apart none.1
  constructor
  · rwa [finish, if_neg counted]
  · intro value member
    obtain ⟨number, known, inside⟩ := number member
    rw [finish, if_neg counted]
    exact (le_iff leastKnown known).mpr (below inside)
  · rwa [finish, if_neg counted]
  · intro value member
    obtain ⟨number, known, inside⟩ := number member
    rw [finish, if_neg counted]
    exact (le_iff known greatestKnown).mpr (above inside)

/-- Values that are no numbers do not count. -/
theorem exacts_filter (values : List Float) :
    exacts (values.filter Float.isFinite) = exacts values := by
  rw [exacts, exacts, List.filterMap_filter]
  refine congrArg _ (List.filterMap_congr fun value _ => ?_)
  rw [isFinite_eq]
  cases value? value <;> rfl

/-- Tallies of the same numbers have the same extremes.

Proof: the least of some numbers is one number, whichever tally found it; and where there is none,
both answer zero. -/
theorem Spans.same_finish {tally other : Tally} {numbers : Multiset ℚ}
    (spans : tally.Spans numbers) (spansOther : other.Spans numbers) {aggregate : Aggregate}
    (extreme : aggregate = .least ∨ aggregate = .greatest) :
    Same (tally.finish aggregate) (other.finish aggregate) := by
  have counts := spans.count.trans spansOther.count.symm
  by_cases none : numbers = 0
  · have count : tally.count = 0 := by rw [spans.count, none, Multiset.card_zero]
    simp only [finish, ← counts, if_pos count]
    exact ⟨0, value?_zero, value?_zero⟩
  · have count : tally.count ≠ 0 := by rwa [spans.count, Ne, Multiset.card_eq_zero]
    simp only [finish, ← counts, if_neg count]
    obtain rfl | rfl := extreme
    · obtain ⟨least, known, isLeast⟩ := spans.least.resolve_left fun empty => none empty.1
      obtain ⟨otherLeast, otherKnown, otherIsLeast⟩ :=
        spansOther.least.resolve_left fun empty => none empty.1
      exact ⟨least, known, isLeast.unique otherIsLeast ▸ otherKnown⟩
    · obtain ⟨greatest, known, isGreatest⟩ :=
        spans.greatest.resolve_left fun empty => none empty.1
      obtain ⟨otherGreatest, otherKnown, otherIsGreatest⟩ :=
        spansOther.greatest.resolve_left fun empty => none empty.1
      exact ⟨greatest, known, isGreatest.unique otherIsGreatest ▸ otherKnown⟩

/-- The number of values, the least and the greatest are exact and do not depend on an order. A
tally of any values, infinite ones and such that are not numbers among them, counts the finite ones.
Without any, every aggregate is zero; otherwise the least is one of the finite values that none of
them is less than, and the greatest one that none is greater than. The same finite values in any
other order, with any others between them, have the same count and the same extremes, as numbers.

Proof: a tally knows its values by the numbers of the finite ones, in no order, so whatever leaves
these numbers alone leaves the count and the extremes alone. -/
theorem extremes_of_values (values : List Float) :
    (values.foldl push empty).count = (values.filter Float.isFinite).length ∧
    (values.filter Float.isFinite = [] →
      ∀ aggregate, (values.foldl push empty).finish aggregate = 0) ∧
    (values.filter Float.isFinite ≠ [] →
      (values.foldl push empty).HasExtremes (values.filter Float.isFinite)) ∧
    ∀ others : List Float,
      (others.filter Float.isFinite).Perm (values.filter Float.isFinite) →
      (others.foldl push empty).count = (values.foldl push empty).count ∧
        ∀ aggregate, aggregate = .least ∨ aggregate = .greatest →
          Same ((others.foldl push empty).finish aggregate)
            ((values.foldl push empty).finish aggregate) := by
  have counts (values : List Float) :
      (values.foldl push empty).count = (values.filter Float.isFinite).length := by
    rw [(spans_foldl values).count, card_exacts]
  refine ⟨counts values, fun none aggregate => ?_, hasExtremes_foldl, fun others same => ?_⟩
  · have count : (values.foldl push empty).count = 0 := by rw [counts, none, List.length_nil]
    exact if_pos count
  · have numbers : exacts others = exacts values := by
      rw [← exacts_filter others, ← exacts_filter values]
      exact Multiset.coe_eq_coe.mpr (same.filterMap value?)
    have spans := spans_foldl others
    rw [numbers] at spans
    exact ⟨by rw [counts, counts, same.length_eq], fun aggregate extreme =>
      spans.same_finish (spans_foldl values) extreme⟩

/-- Three finite values between two infinite ones and one that is not a number. -/
def mixed : List Float := [1.0 / 0.0, 3, notANumber, -2.5, -1.0 / 0.0, 7]

/-- The least of them is the second of the finite ones, and the order does not matter. -/
theorem extremes_of_values_mixed :
    (mixed.foldl push empty).count = 3 ∧ mixed.filter Float.isFinite ≠ [] ∧
      (mixed.foldl push empty).HasExtremes (mixed.filter Float.isFinite) ∧
      value? ((mixed.foldl push empty).finish .least) = some (-5 / 2) ∧
      Same ((mixed.reverse.foldl push empty).finish .least)
        ((mixed.foldl push empty).finish .least) ∧
      (([notANumber] : List Float).foldl push empty).finish .least = 0 := by
  obtain ⟨count, -, extremes, reordered⟩ := extremes_of_values mixed
  have three : (mixed.filter Float.isFinite).length = 3 := by decide +kernel
  have some : mixed.filter Float.isFinite ≠ [] := by
    rw [← List.length_pos_iff, three]
    norm_num
  have turned : (mixed.reverse.filter Float.isFinite).Perm (mixed.filter Float.isFinite) :=
    (List.reverse_perm mixed).filter _
  refine ⟨count.trans three, some, extremes some, by decide +kernel,
    (reordered _ turned).2 _ (.inl rfl), ?_⟩
  exact (extremes_of_values [notANumber]).2.1 (List.isEmpty_iff.mp (by decide +kernel)) .least

end Tally

end ParamSweep
