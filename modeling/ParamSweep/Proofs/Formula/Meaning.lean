import ParamSweep.Formula.Basic
import ParamSweep.Proofs.Formula.Acceptance
import ParamSweep.Proofs.Formula.Lexing
import ParamSweep.Proofs.Formula.Walking

/-!
# A formula means what its text says

The tokens of a term with all its brackets put in are those of a finished tree, in which a pair
of brackets has no node of its own if an operation stands directly in it. So the arena of a
text that reads as a term holds that tree, and its value is the value of the term.

In the other direction, a text that is accepted has well-formed tokens, and these are the tokens
of a term with its operators in the order of their ranks. Both together say that bracketing,
building and the walk give every accepted text the meaning that the ranks give it.
-/

namespace ParamSweep.Formula

namespace Term

/-- The tree of a term. Brackets around an operation are those of the operation. -/
def shape : Term → Shape
  | number value => .node (.number value) .absent .absent
  | name text => .node (.name text) .absent .absent
  | group (operation op left right) => .node (.operator op) left.shape right.shape
  | group inner => .node .group inner.shape .absent
  | operation op left right => .node (.operator op) left.shape right.shape

/-- The tree of a term is finished. -/
theorem finished_shape (term : Term) : term.shape.Finished := by
  induction term with
  | number value => exact .number value
  | name text => exact .name text
  | group inner inductionHypothesis =>
    cases inner with
    | operation op left right => exact inductionHypothesis
    | number value => exact .group inductionHypothesis
    | name text => exact .group inductionHypothesis
    | group inner => exact .group inductionHypothesis
  | operation op left right onLeft onRight => exact .operation op onLeft onRight

/-- The tree of a term is written as the term is spelled after the last sweep. -/
theorem written_shape (term : Term) : term.shape.written = term.spelled 3 false := by
  induction term with
  | number value => rfl
  | name text => rfl
  | group inner inductionHypothesis =>
    cases inner with
    | operation op left right =>
      simpa [shape, spelled, op.rank_lt_three] using inductionHypothesis
    | number value => rfl
    | name text => rfl
    | group inner =>
      exact congrArg (fun inside => Token.opening :: inside ++ [.closing]) inductionHypothesis
  | operation op left right onLeft onRight =>
    simp [shape, Shape.written, spelled, onLeft, onRight, op.rank_lt_three]

/-- Brackets around a tree do not change its value. -/
theorem value_group (inner : Shape) (valuation : Valuation) :
    (Shape.node .group inner .absent).value valuation = inner.value valuation := by
  cases result : inner.value valuation <;> simp [Shape.value, result, Kind.value] <;> rfl

/-- The tree of a term has the value of the term. -/
theorem value_shape (term : Term) (valuation : Valuation) :
    term.shape.value valuation = term.value valuation := by
  induction term with
  | number value => rfl
  | name text => rfl
  | group inner inductionHypothesis =>
    cases inner with
    | operation op left right => exact inductionHypothesis
    | number value => rfl
    | name text => exact (value_group _ valuation).trans inductionHypothesis
    | group inner => exact (value_group _ valuation).trans inductionHypothesis
  | operation op left right onLeft onRight =>
    simp only [shape, Shape.value, onLeft, onRight, value]
    rfl

end Term

/-- A text that reads as a term has an arena, which has the value of the term. -/
theorem Reads.arenaOfText? {text : List Char} {term : Term} (reads : Reads 3 text term) :
    ∃ arena, Formula.arenaOfText? text = some arena ∧
      ∀ valuation, arena.value valuation = term.value valuation := by
  obtain ⟨found, layered⟩ := reads_iff.mp reads
  have swept : bracketed? term.tokens = some term.shape.written := by
    rw [bracketed?_tokens layered, term.written_shape]
  have built := Growth.ofTokens?_written term.finished_shape
  refine ⟨⟨(term.shape.layout none 0).toArray⟩, ?_, fun valuation => ?_⟩
  · simp only [Formula.arenaOfText?, found, swept, built, Option.bind_eq_bind, Option.bind_some]
  · rw [Arena.value_layout, term.value_shape]

/-- A text that has an arena reads as a term. -/
theorem exists_reads {text : List Char} {arena : Arena}
    (accepted : Formula.arenaOfText? text = some arena) : ∃ term, Reads 3 text term := by
  simp only [Formula.arenaOfText?, Option.bind_eq_bind, Option.bind_eq_some_iff] at accepted
  obtain ⟨tokens, found, bracketed, swept, built⟩ := accepted
  obtain ⟨term, layered, rfl⟩ :=
    (wellFormed_iff tokens).mp (wellFormed_of_accepted swept built)
  exact ⟨term, reads_iff.mpr ⟨found, layered⟩⟩

/-- The text of a formula as it is read: its characters without the blanks. -/
abbrev stripped (text : String) : List Char := Text.withoutBlanks text.toList

/-- What becomes of a formula depends on its text alone. -/
theorem prepare_eq (formula : Formula) :
    formula.prepare =
      match formula.source with
      | none => .error .empty
      | some text =>
        if stripped text = [] then .error .empty
        else
          match arenaOfText? (stripped text) with
          | some arena => .ok { formula with arena := some arena }
          | none => .error .malformed := by
  obtain ⟨source, arena⟩ := formula
  cases source with
  | none => rfl
  | some text =>
    simp only [prepare, Option.map_some]
    split
    next nothing => cases nothing
    next nothing =>
      have empty : stripped text = [] := Option.some.inj nothing
      rw [if_pos empty]
    next characters something same =>
      obtain rfl : stripped text = characters := Option.some.inj same
      rw [if_neg something]
      cases arenaOfText? (stripped text) <;> rfl

/-- A formula that has been prepared has a text with an arena, and it is the arena of the text. -/
theorem prepare_eq_ok {formula prepared : Formula} (accepted : formula.prepare = .ok prepared) :
    ∃ text arena, formula.source = some text ∧ arenaOfText? (stripped text) = some arena ∧
      prepared.arena = some arena := by
  rw [prepare_eq] at accepted
  split at accepted
  next => cases accepted
  next text source =>
    split at accepted
    next => cases accepted
    next =>
      split at accepted
      next arena found =>
        cases accepted
        exact ⟨text, arena, source, found, rfl⟩
      next => cases accepted

/-- A prepared formula means what its text says. The text reads as a term in which `^` binds more
strongly than `*` and `/`, and these more strongly than `+` and `-`, and in which every operator
associates to the left; whatever values the names are given, the value of the formula is that of
the term, and there is none exactly if one of the names in the text has none.

Proof: an accepted text has well-formed tokens, so it reads as a term. The three sweeps put
brackets around the operations of that term and nothing else, the builder makes the tree of the
term out of them, and the walk over its nodes comes to the value of the tree. -/
theorem value_of_prepared {formula prepared : Formula}
    (accepted : formula.prepare = .ok prepared) :
    ∃ text, formula.source = some text ∧ (∃ term, Reads 3 (stripped text) term) ∧
      ∀ term, Reads 3 (stripped text) term → ∀ valuation,
        prepared.value valuation = term.value valuation ∧
        ((∃ fault, prepared.value valuation = .error fault) ↔
          ∃ name ∈ term.names, valuation name = none) := by
  obtain ⟨text, arena, source, found, kept⟩ := prepare_eq_ok accepted
  refine ⟨text, source, exists_reads found, fun term reads valuation => ?_⟩
  obtain ⟨own, built, values⟩ := reads.arenaOfText?
  obtain rfl : arena = own := Option.some.inj (found.symm.trans built)
  have value : prepared.value valuation = term.value valuation := by
    simp only [Formula.value, kept, values]
  exact ⟨value, value ▸ term.value_error_iff valuation⟩

/-- Powers associate to the left and come before the difference. -/
theorem value_of_prepared_powers :
    ∃ prepared, (Formula.ofText "a - b ^ c ^ d").prepare = .ok prepared ∧
      ∀ valuation, prepared.value valuation =
        Term.value valuation (.operation .sub (.name "a")
          (.operation .pow (.operation .pow (.name "b") (.name "c")) (.name "d"))) := by
  have powers : Reads 2 ((['b'] ++ Operator.glyph .pow :: ['c']) ++ Operator.glyph .pow :: ['d'])
      (.operation .pow (.operation .pow (.name "b") (.name "c")) (.name "d")) :=
    .operation (by decide) (.operation (by decide) (.name rfl) (.name rfl)) (.name rfl)
  have text : stripped "a - b ^ c ^ d" = ['a'] ++ Operator.glyph .sub ::
      ((['b'] ++ Operator.glyph .pow :: ['c']) ++ Operator.glyph .pow :: ['d']) := by decide
  have reads : Reads 3 (stripped "a - b ^ c ^ d") (.operation .sub (.name "a")
      (.operation .pow (.operation .pow (.name "b") (.name "c")) (.name "d"))) := by
    rw [text]
    exact .operation (by decide) (.name rfl) powers
  obtain ⟨arena, found, -⟩ := reads.arenaOfText?
  have accepted : (Formula.ofText "a - b ^ c ^ d").prepare =
      .ok { Formula.ofText "a - b ^ c ^ d" with arena := some arena } := by
    simp only [prepare_eq, ofText, found]
    rw [if_neg (by decide)]
  obtain ⟨source, same, -, values⟩ := value_of_prepared accepted
  obtain rfl := Option.some.inj same
  exact ⟨_, accepted, fun valuation => (values _ reads valuation).1⟩

end ParamSweep.Formula
