import ParamSweep.Proofs.Formula.Grammar
import ParamSweep.Proofs.Space.Enumeration

/-!
# What the formulas of a sweep come to

The denotation of a list of formulas over a space is the list of the values of their terms, formula
by formula and for each formula point by point; or it is the fault of the first formula that has
one. It is defined on the texts of the formulas, by the terms they read as, and knows neither
arenas nor walks nor tallies.

A sweep stops at the first point where something is wrong, but which formula is at fault does not
hang on the point: a name has a value at all points or at none, so a formula with a name that no
domain declares is at fault as soon as there is a point at all. A list without domains has none,
and over it every formula that can be prepared comes to no value.
-/

namespace ParamSweep

namespace Formula

namespace Term

/-- Of several names without a value the last one is reported. -/
theorem value_eq_unknownVariable {term : Term} {valuation : Valuation} {name : String}
    {before behind : List String} (names : term.names = before ++ name :: behind)
    (unknown : valuation name = none) (known : ∀ later ∈ behind, valuation later ≠ none) :
    term.value valuation = .error (.unknownVariable name) := by
  induction term generalizing before behind with
  | number value =>
    rw [Term.names] at names
    cases List.append_eq_nil_iff.mp names.symm |>.2
  | name text =>
    obtain ⟨-, same⟩ | ⟨-, impossible⟩ := List.singleton_eq_append_iff.mp names
    · cases same
      simp [value, unknown]
    · cases impossible
  | group inner inductionHypothesis => exact inductionHypothesis names known
  | operation op left right onLeft onRight =>
    rw [Term.names] at names
    obtain ⟨between, -, rightNames⟩ | ⟨between, leftNames, rfl⟩ := append_eq_append_cons names
    · rw [value, onRight rightNames known]
      rfl
    · obtain ⟨inLeft, inRight⟩ := List.forall_mem_append.mp known
      cases rightValue : right.value valuation with
      | error fault =>
        obtain ⟨missing, member, nothing⟩ :=
          (right.value_error_iff valuation).mp ⟨fault, rightValue⟩
        exact absurd nothing (inRight missing member)
      | ok result =>
        rw [value, rightValue, onLeft leftNames inLeft]
        rfl

end Term

end Formula

namespace Assignment

/-- The names of the domains with their values, in the order of the domains. -/
def bindings (assignment : Assignment) : List (String × Formula.Value) :=
  List.zipWith (fun domain value => (domain.name, .float value)) assignment.domains
    assignment.values

/-- A name that is declared more than once means its last declaration. -/
theorem valuation_eq_ofPairs (assignment : Assignment) :
    assignment.valuation = .ofPairs assignment.bindings := by
  obtain ⟨domains, values⟩ := assignment
  funext name
  simp only [valuation, Formula.Valuation.ofPairs, bindings]
  induction domains generalizing values with
  | nil => rfl
  | cons domain domains inductionHypothesis =>
    cases values with
    | nil => rfl
    | cons value values =>
      have others := inductionHypothesis values
      simp only [lastValue?, List.zipWith_cons_cons, List.reverse_cons, List.find?_append]
      cases later : lastValue? name domains values with
      | some found =>
        rw [later] at others
        obtain ⟨pair, stands, same⟩ := Option.map_eq_some_iff.mp others.symm
        simp [stands, same]
      | none =>
        rw [later] at others
        have absent := Option.map_eq_none_iff.mp others.symm
        by_cases own : domain.name == name <;> simp [absent, own]

/-- The value that a name has by the bindings of a point. -/
theorem ofPairs_bindings_ne_none {assignment : Assignment}
    (complete : assignment.values.length = assignment.domains.length) (name : String) :
    Formula.Valuation.ofPairs assignment.bindings name ≠ none ↔
      name ∈ assignment.domains.map Domain.name := by
  have names : assignment.bindings.map Prod.fst = assignment.domains.map Domain.name := by
    refine List.ext_getElem (by simp [bindings, complete]) fun place inside known => ?_
    simp [bindings]
  rw [← names]
  simp [Formula.Valuation.ofPairs]

end Assignment

namespace Sweep

open Formula

/-- The value of a term at a point. -/
def valueAt (term : Term) (assignment : Assignment) : Except FormulaFault Value :=
  term.value (.ofPairs assignment.bindings)

/-- What formulas come to over a space: the values of all, in order, or the fault of the first
that has one. A formula is at fault if it cannot be prepared, or if there is a point and one of
its names is not declared; of several such names the last one is reported. -/
inductive Denotes (space : Space) : List String → Except FormulaFault (List Value) → Prop
  | nothing : Denotes space [] (.ok [])
  | unprepared {source : String} {sources : List String} {fault : FormulaFault}
      (refused : (Formula.ofText source).prepare = .error fault) :
      Denotes space (source :: sources) (.error fault)
  | undeclared {source name : String} {sources before behind : List String} {term : Term}
      (points : space.points ≠ [])
      (reads : Reads 3 (stripped source) term)
      (names : term.names = before ++ name :: behind)
      (unknown : name ∉ space.domains.map Domain.name)
      (known : ∀ later ∈ behind, later ∈ space.domains.map Domain.name) :
      Denotes space (source :: sources) (.error (.unknownVariable name))
  | evaluated {source : String} {sources : List String} {term : Term} {values : List Value}
      {others : Except FormulaFault (List Value)}
      (reads : Reads 3 (stripped source) term)
      (declared : space.points ≠ [] → ∀ name ∈ term.names, name ∈ space.domains.map Domain.name)
      (each : List.Forall₂ (fun assignment value => valueAt term assignment = .ok value)
        space.points values)
      (rest : Denotes space sources others) :
      Denotes space (source :: sources) (others.map (values ++ ·))

/-- Adding the values of a formula passes the tally along the points. -/
theorem tallyFormula_eq {space : Space} (sized : space.Sized) {source : String} {term : Term}
    (reads : Reads 3 (stripped source) term) (tally : Tally) :
    tallyFormula space tally source =
      space.points.foldlM (fun tally assignment => do
        let value ← valueAt term assignment
        return tally.push value.toFloat) tally := by
  obtain ⟨formula, accepted, values⟩ := reads.prepare
  rw [tallyFormula, accepted]
  simp only [bind, Except.bind, tallyPoints, Walk.visit_eq_foldlM, sized.points_walk, values,
    Assignment.valuation_eq_ofPairs, valueAt]

/-- Where a term has a value at every point, all of them are added. -/
theorem foldlM_push {points : List Assignment} {term : Term} {values : List Value}
    (each : List.Forall₂ (fun assignment value => valueAt term assignment = .ok value) points
      values) (tally : Tally) :
    points.foldlM (m := Except FormulaFault) (fun tally assignment => do
        let value ← valueAt term assignment
        return tally.push value.toFloat) tally =
      .ok ((values.map Value.toFloat).foldl Tally.push tally) := by
  induction each generalizing tally with
  | nil => rfl
  | cons here others inductionHypothesis =>
    rw [List.foldlM_cons, here]
    exact inductionHypothesis _

/-- The names of a point of a space are declared there. -/
theorem bindings_ne_none_of_mem {space : Space} {assignment : Assignment}
    (member : assignment ∈ space.points) (name : String) :
    Valuation.ofPairs assignment.bindings name ≠ none ↔
      name ∈ space.domains.map Domain.name := by
  obtain ⟨number, -, rfl⟩ := List.mem_map.mp member
  refine Assignment.ofPairs_bindings_ne_none ?_ name
  simp only [Space.pointAt, List.length_zipWith, Space.length_indexesAt, Nat.min_self]

/-- Over a point, a term with an undeclared name has no value. -/
theorem valueAt_eq_error {space : Space} {assignment : Assignment}
    (member : assignment ∈ space.points) {term : Term} {name : String}
    {before behind : List String} (names : term.names = before ++ name :: behind)
    (unknown : name ∉ space.domains.map Domain.name)
    (known : ∀ later ∈ behind, later ∈ space.domains.map Domain.name) :
    valueAt term assignment = .error (.unknownVariable name) := by
  refine Term.value_eq_unknownVariable names ?_ fun later laterMember => ?_
  · by_contra declared
    exact unknown ((bindings_ne_none_of_mem member name).mp declared)
  · exact (bindings_ne_none_of_mem member later).mpr (known later laterMember)

/-- Adding the values of formulas comes to what they denote.

Proof: by induction on the denotation. A formula at fault ends the sweep at the first point, or
before it; any other leaves a tally with all its values and the sweep goes on. -/
theorem foldlM_tallyFormula {space : Space} (sized : space.Sized) {sources : List String}
    {result : Except FormulaFault (List Value)} (denotes : Denotes space sources result)
    (tally : Tally) :
    sources.foldlM (tallyFormula space) tally =
      result.map fun values => (values.map Value.toFloat).foldl Tally.push tally := by
  induction denotes generalizing tally with
  | nothing => rfl
  | unprepared refused =>
    rw [List.foldlM_cons, tallyFormula, refused]
    rfl
  | undeclared points reads names unknown known =>
    obtain ⟨first, others, parts⟩ := List.exists_cons_of_ne_nil points
    have fault := valueAt_eq_error (parts ▸ List.mem_cons_self) names unknown known
    rw [List.foldlM_cons, tallyFormula_eq sized reads, parts, List.foldlM_cons, fault]
    rfl
  | @evaluated source sources term values others reads declared each rest inductionHypothesis =>
    rw [List.foldlM_cons, tallyFormula_eq sized reads, foldlM_push each]
    refine (inductionHypothesis _).trans ?_
    cases others with
    | error fault => rfl
    | ok later => simp [Except.map, List.foldl_append]

/-- Of the members of a list that lack a property, if there are any, one is the last. -/
theorem exists_last_not {α : Type} {P : α → Prop} {items : List α}
    (lacking : ∃ item ∈ items, ¬P item) :
    ∃ before item behind, items = before ++ item :: behind ∧ ¬P item ∧
      ∀ later ∈ behind, P later := by
  induction items with
  | nil => simp at lacking
  | cons first items inductionHypothesis =>
    by_cases others : ∃ item ∈ items, ¬P item
    · obtain ⟨before, item, behind, rfl, lacks, rest⟩ := inductionHypothesis others
      exact ⟨first :: before, item, behind, rfl, lacks, rest⟩
    · have rest : ∀ later ∈ items, P later := by
        intro later member
        by_contra lacks
        exact others ⟨later, member, lacks⟩
      obtain ⟨item, member, lacks⟩ := lacking
      rcases List.mem_cons.mp member with rfl | member
      · exact ⟨[], item, items, rfl, lacks, rest⟩
      · exact absurd (rest item member) lacks

/-- A term whose names are all declared, if there is a point, has a value at every point. -/
theorem exists_values {space : Space} {term : Term}
    (declared : space.points ≠ [] → ∀ name ∈ term.names, name ∈ space.domains.map Domain.name) :
    ∃ values, List.Forall₂ (fun assignment value => valueAt term assignment = .ok value)
      space.points values := by
  refine ⟨space.points.map fun assignment =>
    (valueAt term assignment).toOption.getD .undefined, ?_⟩
  refine List.forall₂_map_right_iff.mpr (List.forall₂_same.mpr fun assignment member => ?_)
  cases result : valueAt term assignment with
  | ok value => rfl
  | error fault =>
    obtain ⟨name, used, unknown⟩ := (term.value_error_iff _).mp ⟨fault, result⟩
    have known := declared (List.ne_nil_of_mem member) name used
    exact absurd unknown ((bindings_ne_none_of_mem member name).mpr known)

/-- Formulas always come to something. -/
theorem exists_denotes (space : Space) (sources : List String) :
    ∃ result, Denotes space sources result := by
  induction sources with
  | nil => exact ⟨_, .nothing⟩
  | cons source sources inductionHypothesis =>
    obtain ⟨others, rest⟩ := inductionHypothesis
    cases prepared : (Formula.ofText source).prepare with
    | error fault => exact ⟨_, .unprepared prepared⟩
    | ok formula =>
      obtain ⟨term, reads⟩ := exists_reads_of_prepare prepared
      by_cases declared : space.points ≠ [] →
          ∀ name ∈ term.names, name ∈ space.domains.map Domain.name
      · obtain ⟨values, each⟩ := exists_values declared
        exact ⟨_, .evaluated reads declared each rest⟩
      · simp only [Classical.not_imp, not_forall] at declared
        obtain ⟨points, undeclared⟩ := declared
        obtain ⟨before, name, behind, names, unknown, known⟩ :=
          exists_last_not (P := (· ∈ space.domains.map Domain.name))
            (by simpa only [exists_prop] using undeclared)
        exact ⟨_, .undeclared points reads names unknown known⟩

end Sweep

/-- Only the finite values of a list count. -/
theorem Tally.foldl_push_filter (tally : Tally) (values : List Float) :
    values.foldl push tally = (values.filter Float.isFinite).foldl push tally := by
  induction values generalizing tally with
  | nil => rfl
  | cons value values inductionHypothesis =>
    cases finite : value.isFinite with
    | true =>
      rw [List.filter_cons_of_pos finite]
      exact inductionHypothesis _
    | false =>
      have ignored : tally.push value = tally := by simp [push, finite]
      rw [List.filter_cons_of_neg (by simp [finite]), List.foldl_cons, ignored]
      exact inductionHypothesis _

namespace Sweep

section

variable (sweep : Sweep) {space : Space}

/-- A sweep over a space that is refused is refused. -/
theorem run_of_refused {fault : Fault}
    (refused : Space.make sweep.domains sweep.kind = .error fault) : sweep.run = .error fault := by
  rw [run, refused]
  rfl

variable (accepted : Space.make sweep.domains sweep.kind = .ok space)

include accepted

/-- A sweep that only counts answers with the number of points. -/
theorem run_of_count (counts : sweep.aggregate = .count) : sweep.run = .ok (.whole space.size) := by
  rw [run, accepted]
  simp only [counts]
  rfl

/-- Any other answers with the aggregate of what its formulas come to. -/
theorem run_of_aggregate (other : sweep.aggregate ≠ .count)
    {result : Except FormulaFault (List Formula.Value)}
    (denotes : Denotes space sweep.formulas result) :
    sweep.run = (result.mapError Fault.formula).map fun values =>
      .decimal (((values.map Formula.Value.toFloat).foldl Tally.push .empty).finish
        sweep.aggregate) := by
  obtain ⟨-, -, sized⟩ := Space.make_eq_ok accepted
  have tallied := foldlM_tallyFormula sized denotes .empty
  rw [run, accepted]
  simp only [bind, Except.bind, if_neg other, tallyFormulas, tallied]
  cases result <;> rfl

end

/-- The answer of a sweep is what its parts denote. A space that cannot be made is reported
whatever the formulas are; a sweep that only counts answers with the number of points, whatever
they are; otherwise the answer is the fault of the first formula that has one, or else the
aggregate of all values of all formulas. Values that are infinite or not a number may be left out
or put in anywhere, and where all values are such the answer is zero.

Proof: the walk through the space visits its points in order, so the values of a formula are added
by a fold over the points, and the rest is the induction on the denotation. -/
theorem run_of_denotes (sweep : Sweep) :
    (∀ fault, Space.make sweep.domains sweep.kind = .error fault → sweep.run = .error fault) ∧
    (∀ space, Space.make sweep.domains sweep.kind = .ok space →
      (sweep.aggregate = .count → sweep.run = .ok (.whole space.points.length)) ∧
      (sweep.aggregate ≠ .count →
        (∃ result, Denotes space sweep.formulas result) ∧
        ∀ result, Denotes space sweep.formulas result →
          sweep.run =
            match result with
            | .error fault => .error (.formula fault)
            | .ok values =>
              .ok (.decimal (((values.map Formula.Value.toFloat).foldl Tally.push .empty).finish
                sweep.aggregate)))) ∧
    (∀ (tally : Tally) (values : List Float),
      values.foldl Tally.push tally = (values.filter Float.isFinite).foldl Tally.push tally) ∧
    (∀ values : List Float, values.filter Float.isFinite = [] →
      (values.foldl Tally.push .empty).finish sweep.aggregate = 0) := by
  refine ⟨fun fault refused => sweep.run_of_refused refused,
    fun space accepted => ⟨fun counts => ?_, fun other => ?_⟩,
    Tally.foldl_push_filter, fun values nothing => ?_⟩
  · rw [sweep.run_of_count accepted counts, Space.length_points]
  · refine ⟨exists_denotes space sweep.formulas, fun result denotes => ?_⟩
    rw [sweep.run_of_aggregate accepted other denotes]
    cases result <;> rfl
  · rw [Tally.foldl_push_filter, nothing]
    rfl

end Sweep

end ParamSweep
