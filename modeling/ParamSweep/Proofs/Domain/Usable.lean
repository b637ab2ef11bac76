import ParamSweep.Proofs.Domain.Count
import ParamSweep.Proofs.Number.Arithmetic

/-!
# What is known of every domain

A domain is made only where three checks pass: the step is not known to be at most zero, the ends
are not known to be in the wrong order, and the quotient of their distance and the step has a
ceiling. The first two let values pass that are not numbers, and none looks at the ends or the step
alone; but the third one leaves no choice. A quotient with a ceiling has a finite dividend, so both
ends are finite and have been compared as numbers, and its divisor is a number or infinite.

An infinite step passes, too: every distance is zero steps of it. Such a domain has one point, and
this is not its lower end but not a number at all, since the step is added zero times by multiplying
it. In every other domain the step is a positive number and the points begin at the lower end.
-/

namespace ParamSweep.Domain

open Number (Binary64 value? nearest)

/-- Finite ends in their order, and one more point than steps lead from one to the other. -/
structure Bounded (domain : Domain) (first last : ℚ) : Prop where
  lower : value? domain.lower = some first
  upper : value? domain.upper = some last
  ordered : first ≤ last
  size_pos : 1 ≤ domain.size
  size_eq : ∃ steps, value? ((domain.upper - domain.lower) / domain.step) = some steps ∧
    (domain.size : ℤ) - 1 = ⌈steps⌉

/-- A domain with finite ends and a finite positive step whose points begin at the lower end. -/
def Usable (domain : Domain) : Prop :=
  ∃ first last stride, domain.Bounded first last ∧ value? domain.step = some stride ∧ 0 < stride ∧
    value? (domain.valueAt 0) = some first

/-- A domain whose step is infinite: its only point is not a number. -/
structure Endless (domain : Domain) : Prop where
  step : Binary64.ofFloat domain.step = .infinite false
  size : domain.size = 1
  point : Binary64.ofFloat (domain.valueAt 0) = .notANumber

section

variable {name : String} {lower step upper : Float} {domain : Domain}

/-- What a domain is made of. -/
theorem eq_of_make (accepted : make name lower step upper = .ok domain) :
    domain.name = name ∧ domain.lower = lower ∧ domain.step = step ∧ domain.upper = upper := by
  unfold make at accepted
  split at accepted
  next => cases accepted
  next =>
    split at accepted
    next => cases accepted
    next =>
      split at accepted
      next =>
        cases accepted
        exact ⟨rfl, rfl, rfl, rfl⟩
      next => cases accepted

/-- A step that is not known to be at most zero is finite and positive, or infinite, if something is
left of it as a divisor. -/
theorem step_cases {total : Float} {steps : ℚ} (steep : ¬ step ≤ 0)
    (finite : value? (total / step) = some steps) :
    (∃ stride, value? step = some stride ∧ 0 < stride) ∨
      Binary64.ofFloat step = .infinite false := by
  cases known : Binary64.ofFloat step with
  | notANumber => exact absurd known (Number.ne_notANumber_of_div finite)
  | infinite negative =>
    cases negative with
    | false => exact .inr rfl
    | true => exact absurd (Number.le_of_lt (Number.infinite_lt Number.value?_zero known)) steep
  | finite negative mantissa exponent =>
    obtain ⟨stride, own⟩ : ∃ stride, value? step = some stride := by
      rw [value?, known]
      exact ⟨_, rfl⟩
    refine .inl ⟨stride, own, ?_⟩
    by_contra flat
    exact steep ((Number.le_iff own Number.value?_zero).mpr (not_lt.mp flat))

/-- No step leads back. -/
theorem steps_nonneg {first last stride steps : ℚ} (knownLower : value? lower = some first)
    (knownUpper : value? upper = some last) (ordered : first ≤ last)
    (knownStep : value? step = some stride) (above : 0 < stride)
    (finite : value? ((upper - lower) / step) = some steps) : 0 ≤ steps := by
  obtain ⟨total, known⟩ := Number.finite_of_div finite
  have distance : 0 ≤ total := by
    rw [(Number.isNearest_sub knownUpper knownLower).value_eq known]
    exact Number.nearest_nonneg (sub_nonneg.mpr ordered)
  rw [(Number.isNearest_div known knownStep above.ne').value_eq finite]
  exact Number.nearest_nonneg (div_nonneg distance above.le)

/-- Zero times a finite step is nothing on top of the lower end. -/
theorem valueAt_zero {first stride : ℚ} (knownLower : value? domain.lower = some first)
    (knownStep : value? domain.step = some stride) : value? (domain.valueAt 0) = some first := by
  have near := Number.isNearest_mul Number.value?_zero knownStep
  rw [zero_mul] at near
  have nothing : value? (Float.ofNat 0 * domain.step) = some 0 := by
    refine near.value?_eq ?_
    exact_mod_cast Number.isBinary64_natCast (n := 0) (by norm_num)
  exact Number.value?_add_zero knownLower nothing

/-- A domain that is made is usable, or its step is infinite. In both cases its ends are finite and
it has as many points as the quotient of their distance and the step says.

Proof: the quotient has a value, so its parts are no other than these. -/
theorem bounded_of_make (accepted : make name lower step upper = .ok domain) :
    ∃ first last, domain.Bounded first last ∧
      ((∃ stride, value? domain.step = some stride ∧ 0 < stride ∧
          value? (domain.valueAt 0) = some first) ∨ domain.Endless) := by
  obtain ⟨steep, inOrder, steps, finite, size⟩ := eq_ok_of_make accepted
  obtain ⟨-, rfl, rfl, rfl⟩ := eq_of_make accepted
  obtain ⟨total, known⟩ := Number.finite_of_div finite
  obtain ⟨⟨last, knownUpper⟩, first, knownLower⟩ := Number.finite_of_sub known
  have ordered : first ≤ last :=
    not_lt.mp (mt (Number.lt_iff knownUpper knownLower).mpr inOrder)
  have bounded (nonnegative : 0 ≤ steps) : domain.Bounded first last := by
    refine ⟨knownLower, knownUpper, ordered, by omega, steps, finite, ?_⟩
    rw [size, Nat.cast_succ, add_sub_cancel_right, Int.natCast_ceil_eq_ceil nonnegative]
  refine ⟨first, last, ?_⟩
  obtain ⟨stride, knownStep, above⟩ | infinite := step_cases steep finite
  · have nonnegative := steps_nonneg knownLower knownUpper ordered knownStep above finite
    exact ⟨bounded nonnegative, .inl ⟨stride, knownStep, above, valueAt_zero knownLower knownStep⟩⟩
  · have none := Option.some.inj (finite.symm.trans (Number.value?_div_infinite known infinite))
    refine ⟨bounded none.ge, .inr ⟨infinite, by rw [size, none, Nat.ceil_zero], ?_⟩⟩
    exact Number.ofFloat_add_notANumber _
      (Number.ofFloat_zero_mul_infinite Number.value?_zero infinite)

/-- A declaration that is accepted has been made into its domain. -/
theorem exists_make_of_read {text : List Char} (accepted : Domain.read text = .ok domain) :
    ∃ name lower step upper, make name lower step upper = .ok domain := by
  have declares := read_iff_declares.mp accepted
  cases declares with
  | domain spells steep ordered finite fits => exact ⟨_, _, _, _, spells.read ▸ accepted⟩

end

/-- Every domain, whether it is made from floats or read from a declaration, has finite ends in
their order and as many points as the ceiling of the quotient says and one more. If its step is not
infinite, it is usable: the step is finite and positive and the points begin at the lower end. If
its step is infinite, it has one point and this is not a number. -/
theorem usable_or_endless {domain : Domain}
    (accepted : (∃ name lower step upper, make name lower step upper = .ok domain) ∨
      ∃ text, Domain.read text = .ok domain) :
    (∃ first last, domain.Bounded first last) ∧
      (Binary64.ofFloat domain.step ≠ .infinite false → domain.Usable) ∧
      (Binary64.ofFloat domain.step = .infinite false → domain.Endless) := by
  have made : ∃ name lower step upper, make name lower step upper = .ok domain := by
    obtain made | ⟨text, read⟩ := accepted
    · exact made
    · exact exists_make_of_read read
  obtain ⟨name, lower, step, upper, made⟩ := made
  obtain ⟨first, last, bounded, ⟨stride, knownStep, above, begins⟩ | endless⟩ :=
    bounded_of_make made
  · refine ⟨⟨first, last, bounded⟩, fun _ => ?_, fun infinite => ?_⟩
    · exact ⟨first, last, stride, bounded, knownStep, above, begins⟩
    · rw [value?, infinite] at knownStep
      cases knownStep
  · exact ⟨⟨first, last, bounded⟩, fun finite => absurd endless.step finite, fun _ => endless⟩

/-- Steps of a half make a usable domain. -/
theorem usable_of_halves :
    ∃ domain, Domain.read "y:-1:0.5:1".toList = .ok domain ∧ domain.Usable := by
  obtain ⟨domain, accepted, step⟩ := exists_of_observed
    (show (Domain.read "y:-1:0.5:1".toList).toOption.map (fun domain =>
      decide (Binary64.ofFloat domain.step = .infinite false)) = some false by decide +kernel)
  obtain ⟨-, usable, -⟩ := usable_or_endless (.inr ⟨_, accepted⟩)
  exact ⟨domain, accepted, usable (of_decide_eq_false step)⟩

/-- A step with 310 digits, which is beyond the largest float. -/
def endlessStep : List Char := "x:5:1".toList ++ List.replicate 309 '0' ++ ":6".toList

/-- The ends are `5` and `6`, and yet the only point is not a number. -/
theorem not_usable_endlessStep :
    ∃ domain, Domain.read endlessStep = .ok domain ∧ domain.Endless ∧ ¬ domain.Usable := by
  obtain ⟨domain, accepted, seen⟩ := exists_of_observed
    (show (Domain.read endlessStep).toOption.map (fun domain => (Binary64.ofFloat domain.step,
      domain.size, Binary64.ofFloat (domain.valueAt 0))) =
        some (.infinite false, 1, .notANumber) by decide +kernel)
  obtain ⟨step, size, point⟩ : Binary64.ofFloat domain.step = .infinite false ∧
      domain.size = 1 ∧ Binary64.ofFloat (domain.valueAt 0) = .notANumber := by
    simpa only [Prod.mk.injEq] using seen
  refine ⟨domain, accepted, ⟨step, size, point⟩, ?_⟩
  rintro ⟨first, last, stride, -, knownStep, -, -⟩
  rw [value?, step] at knownStep
  cases knownStep

end ParamSweep.Domain
