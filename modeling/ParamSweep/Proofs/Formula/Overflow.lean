import ParamSweep.Proofs.Formula.Grammar
import ParamSweep.Proofs.Number.Reading

/-!
# Where infinities come from

An infinite result of an operator counts as undefined, so that only values that are not numbers are
left to be told from results. But an operator is not the only source of a value. Names may be given
finite values alone, and still a literal beyond the largest float is read as infinity. Next to an
operator that infinity is an operand like any other, and no infinity comes out; without any operator
it is the value of the formula, since a group hands on what stands in it.

So a formula is infinite exactly if it is one such literal, in any number of brackets.
-/

namespace ParamSweep

open Number (Binary64 value? nearest bound)

/-- A float that is a number, or not a number at all, but no infinity. -/
def Number.NoInfinity (x : Float) : Prop :=
  (∃ number, value? x = some number) ∨ Binary64.ofFloat x = .notANumber

/-- A float is no infinity if the test for them says so. -/
theorem Number.noInfinity_of_isInf {x : Float} (bounded : x.isInf = false) : NoInfinity x := by
  cases known : Binary64.ofFloat x with
  | finite negative mantissa exponent => exact .inl ⟨_, by rw [value?, known]; rfl⟩
  | infinite negative => exact absurd ((isInf_iff x).mpr ⟨negative, known⟩) (by simp [bounded])
  | notANumber => exact .inr known

/-- What is no number is no infinity. -/
theorem Number.noInfinity_notANumber : NoInfinity notANumber := .inr (by decide +kernel)

/-- A float that unpacks to an infinity is one. -/
theorem Number.not_noInfinity_of_infinite {x : Float} {negative : Bool}
    (infinite : Binary64.ofFloat x = .infinite negative) : ¬ NoInfinity x := by
  rintro (⟨number, known⟩ | undefined)
  · rw [value?, infinite] at known
    cases known
  · rw [infinite] at undefined
    cases undefined

namespace Formula

/-- A valuation that gives numbers to all names of a list. -/
def Valuation.IsFiniteOn (valuation : Valuation) (names : List String) : Prop :=
  ∀ name ∈ names, ∃ x number, valuation name = some (.float x) ∧ value? x = some number

/-- A literal beyond the largest float, in any number of brackets. -/
inductive Oversized : List Char → Prop
  | literal {text : List Char} {number : ℚ} (denotes : Number.Literal.Denotes text number)
      (beyond : bound ≤ nearest number) : Oversized text
  | group {text : List Char} (inside : Oversized text) : Oversized ('(' :: text ++ [')'])

/-- No operator yields an infinity. -/
theorem Operator.exists_apply (op : Operator) (left right : Float) :
    ∃ x, op.apply (.float left) (.float right) = .float x ∧ Number.NoInfinity x := by
  simp only [Operator.apply]
  split
  next => exact ⟨_, rfl, Number.noInfinity_notANumber⟩
  next bounded => exact ⟨_, rfl, Number.noInfinity_of_isInf (Bool.eq_false_iff.mpr bounded)⟩

variable {text : List Char} {term : Term}

/-- A literal in the range of the floats is a number. -/
theorem exists_value_of_literal {x : Float} (read : Number.Literal.read? text = some x)
    (inRange : ¬ Oversized text) : ∃ number, value? x = some number := by
  obtain ⟨⟨number, denotes⟩, rfl⟩ := Number.Literal.read?_eq_some.mp read
  refine ⟨_, denotes.isNearest.finite ?_⟩
  rw [abs_of_nonneg (Number.nearest_nonneg denotes.nonneg)]
  exact not_le.mp (mt (Oversized.literal denotes) inRange)

/-- The value of a term whose names are given numbers is no infinity, unless its text is no more
than a literal beyond the largest float.

Proof: induction on the reading. A literal in the range of the floats is a number, and so is a name;
a group hands its value on; and no operator yields an infinity, whatever its operands are. -/
theorem Reads.exists_value {bound : Nat} (reads : Reads bound text term) {valuation : Valuation}
    (finite : valuation.IsFiniteOn term.names) :
    ∃ x, term.value valuation = .ok (.float x) ∧ (¬ Oversized text → Number.NoInfinity x) := by
  induction reads with
  | @number bound text x literal =>
    exact ⟨x, rfl, fun inRange => .inl (exists_value_of_literal literal inRange)⟩
  | @name bound text spelled =>
    obtain ⟨x, number, given, known⟩ := finite _ (List.mem_singleton_self _)
    exact ⟨x, by simp only [Term.value, given], fun _ => .inl ⟨number, known⟩⟩
  | group inside inductionHypothesis =>
    obtain ⟨x, value, bounded⟩ := inductionHypothesis finite
    exact ⟨x, value, fun inRange => bounded (mt Oversized.group inRange)⟩
  | @operation bound op leftText rightText left right allowed onLeft onRight leftHypothesis
      rightHypothesis =>
    obtain ⟨finiteLeft, finiteRight⟩ := List.forall_mem_append.mp finite
    obtain ⟨x, leftValue, -⟩ := leftHypothesis finiteLeft
    obtain ⟨y, rightValue, -⟩ := rightHypothesis finiteRight
    obtain ⟨result, applied, bounded⟩ := op.exists_apply x y
    refine ⟨result, ?_, fun _ => bounded⟩
    simp only [Term.value, leftValue, rightValue, ← applied]
    rfl

namespace Oversized

/-- A literal beyond the largest float is infinite under every valuation. -/
theorem exists_reads (oversized : Oversized text) :
    ∃ term x, Reads 3 text term ∧ (∀ valuation, term.value valuation = .ok (.float x)) ∧
      Binary64.ofFloat x = .infinite false := by
  induction oversized with
  | @literal text number denotes beyond =>
    have read := Number.Literal.read?_eq_some.mpr ⟨⟨number, denotes⟩, rfl⟩
    refine ⟨_, _, .number read, fun _ => rfl, ?_⟩
    rw [denotes.isNearest.infinite (beyond.trans (le_abs_self _)),
      decide_eq_false denotes.nonneg.not_gt]
  | group inside inductionHypothesis =>
    obtain ⟨term, x, reads, values, infinite⟩ := inductionHypothesis
    exact ⟨.group term, x, .group reads, values, infinite⟩

/-- There is neither a name nor an operator in such a text. -/
theorem glyphs (oversized : Oversized text) :
    ∀ c ∈ text, c.isDigit = true ∨ c ∈ ['.', '(', ')'] := by
  induction oversized with
  | literal denotes beyond =>
    refine fun c member => (denotes.isDigit_or_point c member).imp_right ?_
    rintro rfl
    exact List.mem_cons_self
  | group inside inductionHypothesis =>
    simp only [List.cons_append, List.forall_mem_cons, List.forall_mem_append]
    exact ⟨by decide, inductionHypothesis, by decide, List.forall_mem_nil _⟩

end Oversized

/-- A prepared formula has the value of the term that its text reads as. -/
theorem Reads.value_of_prepare {formula prepared : Formula} {text : String}
    (reads : Reads 3 (stripped text) term) (source : formula.source = some text)
    (accepted : formula.prepare = .ok prepared) (valuation : Valuation) :
    prepared.value valuation = term.value valuation := by
  obtain ⟨own, arena, same, found, kept⟩ := prepare_eq_ok accepted
  obtain rfl : text = own := Option.some.inj (source.symm.trans same)
  obtain ⟨other, built, values⟩ := reads.arenaOfText?
  obtain rfl : arena = other := Option.some.inj (found.symm.trans built)
  simp only [Formula.value, kept, values]

/-- A prepared formula whose names are all given numbers has a value, and this is a number or not a
number at all, unless the text is a literal beyond the largest float in any number of brackets. The
value of such a text is infinity. -/
theorem noInfinity_or_oversized {formula prepared : Formula}
    (accepted : formula.prepare = .ok prepared) :
    ∃ text, formula.source = some text ∧ (∃ term, Reads 3 (stripped text) term) ∧
      ∀ term, Reads 3 (stripped text) term → ∀ valuation : Valuation,
        valuation.IsFiniteOn term.names →
        ∃ x, prepared.value valuation = .ok (.float x) ∧
          (¬ Oversized (stripped text) → Number.NoInfinity x) ∧
          (Oversized (stripped text) → Binary64.ofFloat x = .infinite false) := by
  obtain ⟨text, arena, source, found, -⟩ := prepare_eq_ok accepted
  refine ⟨text, source, Formula.exists_reads found, fun term reads valuation finite => ?_⟩
  obtain ⟨x, value, bounded⟩ := reads.exists_value finite
  have known := (reads.value_of_prepare source accepted valuation).trans value
  refine ⟨x, known, bounded, fun oversized => ?_⟩
  obtain ⟨other, y, reads', values, infinite⟩ := oversized.exists_reads
  have same := known.symm.trans ((reads'.value_of_prepare source accepted valuation).trans
    (values valuation))
  obtain rfl : x = y := Value.float.inj (Except.ok.inj same)
  exact infinite

/-- Zero divided by zero. -/
theorem noInfinity_of_quotient :
    ∃ prepared x, (ofText "x / y").prepare = .ok prepared ∧
      prepared.value (fun _ => some (.float 0)) = .ok (.float x) ∧ Number.NoInfinity x := by
  have text : stripped "x / y" = ['x'] ++ Operator.glyph .div :: ['y'] := by decide
  have reads : Reads 3 (stripped "x / y") (.operation .div (.name "x") (.name "y")) := by
    rw [text]
    exact .operation (by decide) (.name rfl) (.name rfl)
  have inRange : ¬ Oversized (stripped "x / y") := fun oversized =>
    absurd (oversized.glyphs 'x' (by decide)) (by decide)
  obtain ⟨prepared, accepted, -⟩ := reads.prepare
  obtain ⟨source, same, -, values⟩ := noInfinity_or_oversized accepted
  obtain rfl := Option.some.inj same
  obtain ⟨x, known, bounded, -⟩ := values _ reads (fun _ => some (.float 0))
    fun _ _ => ⟨0, 0, rfl, Number.value?_zero⟩
  exact ⟨prepared, x, accepted, known, bounded inRange⟩

/-- A literal with 310 digits. -/
def longLiteral : String := String.ofList ('1' :: List.replicate 309 '0')

/-- It can be prepared and has no names, and its value is an infinity. -/
theorem infinite_longLiteral :
    ∃ prepared x, (ofText longLiteral).prepare = .ok prepared ∧
      (∀ valuation, prepared.value valuation = .ok (.float x)) ∧
      Binary64.ofFloat x = .infinite false ∧ ¬ Number.NoInfinity x := by
  have text : stripped longLiteral = '1' :: List.replicate 309 '0' :=
    (congrArg Text.withoutBlanks String.toList_ofList).trans (by decide +kernel)
  have observed : (Number.Literal.read? ('1' :: List.replicate 309 '0')).map Binary64.ofFloat =
      some (.infinite false) := by decide +kernel
  rw [← text] at observed
  obtain ⟨x, read, infinite⟩ := Option.map_eq_some_iff.mp observed
  obtain ⟨prepared, accepted, values⟩ :=
    Reads.prepare (Reads.number read : Reads 3 (stripped longLiteral) _)
  exact ⟨prepared, x, accepted, values, infinite, Number.not_noInfinity_of_infinite infinite⟩

end Formula

end ParamSweep
