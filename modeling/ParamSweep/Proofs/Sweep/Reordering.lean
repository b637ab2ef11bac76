import ParamSweep.Proofs.Aggregate.Extremes
import ParamSweep.Proofs.Space.Reordering

/-!
# Sweeps that do not depend on an order

The least and the greatest of the values of a sweep are numbers that do not depend on the order in
which the values come, and neither does the number of points. So a sweep that asks for one of them
may declare its domains in any order, and give its formulas in any order.

The order of the domains is not even told by a fault: whether there is a space, and which name has
no value, is the same. The order of the formulas may be, since it is the first formula at fault that
is reported.

What does depend on the order is an average, because floats are rounded when they are added.
-/

namespace ParamSweep

/-- Two answers are one number. -/
def Answer.Same : Answer → Answer → Prop
  | .whole count, .whole other => count = other
  | .decimal value, .decimal other => Number.Same value other
  | _, _ => False

namespace Sweep

open Formula

section

variable {space other : Space} (valuations : other.valuations = space.valuations)

include valuations

/-- Spaces with the same valuations have points, or have none. -/
theorem points_ne_nil (points : space.points ≠ []) : other.points ≠ [] := by
  intro nothing
  have none : space.valuations = 0 := by
    rw [← valuations, Space.valuations, nothing]
    rfl
  rw [Space.valuations, Multiset.coe_eq_zero, List.map_eq_nil_iff] at none
  exact points none

end

/-- The values of a term at all points are told by the valuations of the points. -/
theorem map_valuations {space : Space} {term : Term} {values : List Value}
    (each : List.Forall₂ (fun assignment value => valueAt term assignment = .ok value)
      space.points values) :
    space.valuations.map term.value = (values : Multiset Value).map Except.ok := by
  have same : space.points.map (valueAt term) = values.map Except.ok := by
    rwa [← List.forall₂_eq_eq_eq, List.forall₂_map_left_iff, List.forall₂_map_right_iff]
  rw [Space.valuations, Multiset.map_coe, List.map_map, Multiset.map_coe, ← same]
  rfl

/-- What formulas come to, without the order of the values. -/
def unordered (result : Except FormulaFault (List Value)) : Except FormulaFault (Multiset Value) :=
  result.map Multiset.ofList

/-- The values of a formula come on top of those of the others. -/
theorem unordered_append (values : List Value) (others : Except FormulaFault (List Value)) :
    unordered (others.map (values ++ ·)) =
      (unordered others).map ((values : Multiset Value) + ·) := by
  cases others <;> rfl

/-- Over spaces with the same valuations and the same names, formulas come to the same fault, or to
the same values in some order.

Proof: by induction on the denotation. Of the points only their valuations matter to a term, and of
the domains only their names. -/
theorem Denotes.of_valuations {space other : Space}
    (valuations : other.valuations = space.valuations)
    (names : ∀ name, name ∈ other.domains.map Domain.name ↔ name ∈ space.domains.map Domain.name)
    {sources : List String} {result : Except FormulaFault (List Value)}
    (denotes : Denotes space sources result) :
    ∃ otherResult, Denotes other sources otherResult ∧
      unordered otherResult = unordered result := by
  induction denotes with
  | nothing => exact ⟨_, .nothing, rfl⟩
  | unprepared refused => exact ⟨_, .unprepared refused, rfl⟩
  | undeclared points reads parts unknown known =>
    exact ⟨_, .undeclared (points_ne_nil valuations points) reads parts (mt (names _).mp unknown)
      fun later member => (names later).mpr (known later member), rfl⟩
  | @evaluated source sources term values others reads declared each rest inductionHypothesis =>
    have otherDeclared : other.points ≠ [] →
        ∀ name ∈ term.names, name ∈ other.domains.map Domain.name := fun points name used =>
      (names name).mpr (declared (points_ne_nil valuations.symm points) name used)
    obtain ⟨otherValues, otherEach⟩ := exists_values otherDeclared
    obtain ⟨otherRest, later, same⟩ := inductionHypothesis
    refine ⟨_, .evaluated reads otherDeclared otherEach later, ?_⟩
    have own : (otherValues : Multiset Value) = values := by
      have injective : Function.Injective (Except.ok : Value → Except FormulaFault Value) :=
        fun _ _ => Except.ok.inj
      refine Multiset.map_injective injective ?_
      rw [← map_valuations otherEach, valuations, map_valuations each]
    rw [unordered_append, unordered_append, own, same]

/-- What one formula comes to over a space, if it is at fault nowhere. -/
def Evaluates (space : Space) (source : String) (values : List Value) : Prop :=
  ∃ term, Reads 3 (stripped source) term ∧
    (space.points ≠ [] → ∀ name ∈ term.names, name ∈ space.domains.map Domain.name) ∧
    List.Forall₂ (fun assignment value => valueAt term assignment = .ok value) space.points values

/-- Formulas are at fault nowhere if no formula is; their values come formula by formula. -/
theorem denotes_ok_iff {space : Space} {sources : List String} {values : List Value} :
    Denotes space sources (.ok values) ↔
      ∃ parts, List.Forall₂ (Evaluates space) sources parts ∧ parts.flatten = values := by
  constructor
  · intro denotes
    generalize result : Except.ok (ε := FormulaFault) values = whole at denotes
    induction denotes generalizing values with
    | nothing =>
      cases result
      exact ⟨[], .nil, rfl⟩
    | unprepared refused => cases result
    | undeclared => cases result
    | @evaluated source sources term own others reads declared each rest inductionHypothesis =>
      cases others with
      | error fault => cases result
      | ok later =>
        cases result
        obtain ⟨parts, behind, rfl⟩ := inductionHypothesis rfl
        exact ⟨own :: parts, .cons ⟨term, reads, declared, each⟩ behind, rfl⟩
  · rintro ⟨parts, evaluates, rfl⟩
    induction evaluates with
    | nil => exact .nothing
    | cons first _ inductionHypothesis =>
      obtain ⟨term, reads, declared, each⟩ := first
      exact .evaluated reads declared each inductionHypothesis

/-- Formulas that are at fault nowhere have the same values in any order. -/
theorem Denotes.perm {space : Space} {sources others : List String} (same : others.Perm sources)
    {values : List Value} (denotes : Denotes space sources (.ok values)) :
    ∃ otherValues, Denotes space others (.ok otherValues) ∧ otherValues.Perm values := by
  obtain ⟨parts, evaluates, rfl⟩ := denotes_ok_iff.mp denotes
  obtain ⟨otherParts, otherEvaluates, order⟩ := List.perm_comp_forall₂ same evaluates
  exact ⟨_, denotes_ok_iff.mpr ⟨otherParts, otherEvaluates, rfl⟩, order.flatten⟩

/-- Two sweeps end with the same fault, or with the same number. -/
inductive EndAlike : Except Fault Answer → Except Fault Answer → Prop
  | refused (fault : Fault) : EndAlike (.error fault) (.error fault)
  | answered {answer other : Answer} (same : answer.Same other) : EndAlike (.ok answer) (.ok other)

section

variable {sweep : Sweep} (extreme : sweep.aggregate ≠ .average)

include extreme

/-- The least or the greatest of some values is one number whatever their order. -/
theorem same_finish (other : sweep.aggregate ≠ .count) {values others : List Value}
    (same : others.Perm values) :
    Number.Same (((values.map Value.toFloat).foldl Tally.push .empty).finish sweep.aggregate)
      (((others.map Value.toFloat).foldl Tally.push .empty).finish sweep.aggregate) := by
  have numbers :
      Tally.exacts (others.map Value.toFloat) = Tally.exacts (values.map Value.toFloat) :=
    Multiset.coe_eq_coe.mpr ((same.map Value.toFloat).filterMap Number.value?)
  have spans := Tally.spans_foldl (others.map Value.toFloat)
  rw [numbers] at spans
  refine (Tally.spans_foldl (values.map Value.toFloat)).same_finish spans ?_
  cases wanted : sweep.aggregate with
  | least => exact .inl rfl
  | greatest => exact .inr rfl
  | average => exact absurd wanted extreme
  | count => exact absurd wanted other

/-- A sweep over spaces with as many points and the same valuations ends alike. -/
theorem endAlike_of_valuations {domains : List Domain} {space other : Space}
    (accepted : Space.make sweep.domains sweep.kind = .ok space)
    (otherAccepted : Space.make domains sweep.kind = .ok other) (size : other.size = space.size)
    (same : other.domains.Perm space.domains) (valuations : other.valuations = space.valuations) :
    EndAlike sweep.run (run { sweep with domains }) := by
  by_cases counts : sweep.aggregate = .count
  · have answered := run_of_count { sweep with domains } otherAccepted counts
    rw [sweep.run_of_count accepted counts, answered]
    exact .answered size.symm
  · obtain ⟨result, denotes⟩ := exists_denotes space sweep.formulas
    obtain ⟨otherResult, otherDenotes, agree⟩ := denotes.of_valuations valuations
      fun name => (same.map Domain.name).mem_iff
    have ended := run_of_aggregate { sweep with domains } otherAccepted counts otherDenotes
    rw [sweep.run_of_aggregate accepted counts denotes, ended]
    cases result with
    | error fault =>
      cases otherResult with
      | error otherFault =>
        cases agree
        exact .refused _
      | ok others => cases agree
    | ok values =>
      cases otherResult with
      | error otherFault => cases agree
      | ok others =>
        exact .answered (same_finish extreme counts (Multiset.coe_eq_coe.mp (Except.ok.inj agree)))

/-- A sweep that answers does so with the same number whatever the order of its formulas. -/
theorem exists_answer_of_perm {formulas : List String} (same : formulas.Perm sweep.formulas)
    {answer : Answer} (answered : sweep.run = .ok answer) :
    ∃ other, run { sweep with formulas } = .ok other ∧ answer.Same other := by
  cases accepted : Space.make sweep.domains sweep.kind with
  | error fault => cases answered.symm.trans (sweep.run_of_refused accepted)
  | ok space =>
    by_cases counts : sweep.aggregate = .count
    · obtain rfl := Except.ok.inj (answered.symm.trans (sweep.run_of_count accepted counts))
      exact ⟨_, run_of_count { sweep with formulas } accepted counts, rfl⟩
    · obtain ⟨result, denotes⟩ := exists_denotes space sweep.formulas
      rw [sweep.run_of_aggregate accepted counts denotes] at answered
      cases result with
      | error fault => cases answered
      | ok values =>
        obtain rfl := Except.ok.inj answered
        obtain ⟨others, otherDenotes, order⟩ := denotes.perm same
        exact ⟨_, run_of_aggregate { sweep with formulas } accepted counts otherDenotes,
          same_finish extreme counts order⟩

end

/-- A sweep for the least value, for the greatest or for the number of points does not depend on an
order. Where the names of its domains are distinct, the domains may be declared in any other order:
the sweep ends with the same fault, or its answer is the same number. And the formulas may be given
in any other order: the sweep answers with the same number if it answers, and is refused if it is
refused.

Proof: domains in another order make a space whose points have the same valuations, so the formulas
have the same values in some order; formulas in another order have them too. A tally keeps the least
and the greatest number that any of its values stands for, and no order has a part in these. -/
theorem run_reordered (sweep : Sweep) (extreme : sweep.aggregate ≠ .average) :
    ((∀ domain ∈ sweep.domains, domain.IsMade) → (sweep.domains.map Domain.name).Nodup →
      ∀ domains, domains.Perm sweep.domains → EndAlike sweep.run (run { sweep with domains })) ∧
    ∀ formulas, formulas.Perm sweep.formulas →
      (∀ answer, sweep.run = .ok answer →
        ∃ other, run { sweep with formulas } = .ok other ∧ answer.Same other) ∧
      (∀ fault, sweep.run = .error fault →
        ∃ other, run { sweep with formulas } = .error other) := by
  refine ⟨fun made distinct domains same => ?_, fun formulas same => ⟨fun answer answered => ?_,
    fun fault refused => ?_⟩⟩
  · cases accepted : Space.make sweep.domains sweep.kind with
    | error fault =>
      have refused := run_of_refused { sweep with domains }
        (Space.make_error_perm same.symm made accepted)
      rw [sweep.run_of_refused accepted, refused]
      exact .refused fault
    | ok space =>
      obtain ⟨other, otherAccepted, size, order, valuations⟩ :=
        Space.make_ok_perm same.symm made distinct accepted
      exact endAlike_of_valuations extreme accepted otherAccepted size order valuations
  · exact exists_answer_of_perm extreme same answered
  · cases answered : run { sweep with formulas } with
    | error other => exact ⟨other, rfl⟩
    | ok answer =>
      obtain ⟨other, back, -⟩ := exists_answer_of_perm
        (show Sweep.aggregate { sweep with formulas } ≠ .average from extreme) same.symm answered
      cases refused.symm.trans back

/-- The least value of two formulas over six points. -/
def contrary : Sweep where
  aggregate := .least
  kind := .grid
  domains := Space.crossing
  formulas := ["x-y", "y"]

/-- The least value is that of the first formula at the third of the six points. With the domains
the other way round this point is the fifth, and with the formulas the other way round it is the
second formula that has the value. -/
theorem run_reordered_contrary :
    ∃ answer, contrary.run = .ok answer ∧ answer.text = "-20.000000" ∧
      EndAlike contrary.run (run { contrary with domains := Space.crossing.reverse }) ∧
      ∃ other, run { contrary with formulas := ["y", "x-y"] } = .ok other ∧ answer.Same other := by
  have made : ∀ domain ∈ Space.crossing, domain.IsMade :=
    List.forall_mem_cons.mpr ⟨⟨"x", 0, 1, 1, rfl⟩, List.forall_mem_cons.mpr
      ⟨⟨"y", 10, 5, 20, rfl⟩, nofun⟩⟩
  have ended : contrary.run.toOption.map Answer.text = some "-20.000000" := by decide +kernel
  obtain ⟨domains, formulas⟩ := run_reordered contrary (by decide)
  cases answered : contrary.run with
  | error fault =>
    rw [answered] at ended
    cases ended
  | ok answer =>
    rw [answered] at ended
    refine ⟨answer, rfl, Option.some.inj ended, ?_, ?_⟩
    · exact answered ▸ domains made (by decide) _ (List.reverse_perm _)
    · exact (formulas _ (.swap "x-y" "y" [])).1 _ answered

end Sweep

end ParamSweep
