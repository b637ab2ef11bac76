import ParamSweep.Formula.Basic

/-!
# What a text of a formula says

The meaning of a text is given without tokens, brackets put in, or an arena. A text reads as a
term: a number, a name, a group in brackets, or two texts with the glyph of an operator between
them. Which operator of a text is outermost follows from the bounds on the two sides: what
stands on the left of an operator may hold operators of the same rank, what stands on the right
only operators that bind more strongly. So every operator associates to the left.

The value of a term is defined by recursion and looks at nothing but the term and the valuation.
The grammar without ranks says which texts have a meaning at all; it leaves open which.
-/

namespace ParamSweep.Formula

/-- An item of two lists in a row stands in one of them. -/
theorem append_eq_append_cons {α : Type} {left right before behind : List α} {item : α}
    (parts : left ++ right = before ++ item :: behind) :
    (∃ between, before = left ++ between ∧ right = between ++ item :: behind) ∨
      ∃ between, left = before ++ item :: between ∧ behind = between ++ right := by
  obtain ⟨between, onRight, others⟩ | ⟨between, onLeft, others⟩ :=
    List.append_eq_append_iff.mp parts
  · exact .inl ⟨between, onRight, others⟩
  · cases between with
    | nil => exact .inl ⟨[], by simpa using onLeft.symm, others.symm⟩
    | cons first between =>
      obtain ⟨rfl, rfl⟩ := List.cons.inj others
      exact .inr ⟨between, onLeft, rfl⟩

namespace Operator

/-- The strength of an operator as a number: less binds more strongly. -/
def rank : Operator → Nat
  | pow => 0
  | mul | div => 1
  | add | sub => 2

/-- There are three ranks. -/
theorem rank_lt_three (op : Operator) : op.rank < 3 := by cases op <;> decide

end Operator

/-- What a text says, its brackets kept. -/
inductive Term
  | number (value : Value)
  | name (text : String)
  | group (inner : Term)
  | operation (op : Operator) (left right : Term)

namespace Term

/-- The value of a term. Every name is looked up, the last of the text first; so of several
names without a value, the last one is reported. -/
def value (valuation : Valuation) : Term → Except FormulaFault Value
  | number value => .ok value
  | name text =>
    match valuation text with
    | some value => .ok value
    | none => .error (.unknownVariable text)
  | group inner => inner.value valuation
  | operation op left right => do
    let rightValue ← right.value valuation
    let leftValue ← left.value valuation
    return op.apply leftValue rightValue

/-- The names in a term, in the order of the text. -/
def names : Term → List String
  | number _ => []
  | name text => [text]
  | group inner => inner.names
  | operation _ left right => left.names ++ right.names

/-- A term has no value exactly if one of its names has none. The operands of an operation are
independent, so a fault on either side is a fault of the whole. -/
theorem value_error_iff (term : Term) (valuation : Valuation) :
    (∃ fault, term.value valuation = .error fault) ↔
      ∃ name ∈ term.names, valuation name = none := by
  induction term with
  | number value => simp [Term.value, names]
  | name text => cases known : valuation text <;> simp [Term.value, names, known]
  | group inner inductionHypothesis => exact inductionHypothesis
  | operation op left right onLeft onRight =>
    simp only [names, List.mem_append, or_and_right, exists_or, ← onLeft, ← onRight]
    cases rightValue : right.value valuation with
    | error fault => simp [Term.value, rightValue, bind, Except.bind]
    | ok value =>
      cases leftValue : left.value valuation <;>
        simp [Term.value, rightValue, leftValue, bind, Except.bind, pure, Except.pure]

end Term

namespace Term

/-- The tokens of a term as the text has them. -/
def tokens : Term → List Token
  | number value => [.number value]
  | name text => [.name text]
  | group inner => .opening :: inner.tokens ++ [.closing]
  | operation op left right => left.tokens ++ .operator op :: right.tokens

/-- The ranks of the operators outside of brackets stay below `bound`, and every operation is
the one that its text says: on the left of an operator stand ranks up to its own, on the right
only lower ones. -/
def Layered : (bound : Nat) → Term → Prop
  | _, number _ | _, name _ => True
  | _, group inner => inner.Layered 3
  | bound, operation op left right =>
    op.rank < bound ∧ left.Layered (op.rank + 1) ∧ right.Layered op.rank

/-- A wider bound admits more. -/
theorem Layered.widen {term : Term} {bound wider : Nat} (layered : term.Layered bound)
    (le : bound ≤ wider) : term.Layered wider := by
  cases term with
  | number value => trivial
  | name text => trivial
  | group inner => exact layered
  | operation op left right => exact ⟨Nat.lt_of_lt_of_le layered.1 le, layered.2⟩

end Term

/-- A text reads as a term whose operators outside of brackets all have a rank below `bound`. -/
inductive Reads : (bound : Nat) → List Char → Term → Prop
  | number {bound : Nat} {text : List Char} {value : Float}
      (literal : Number.Literal.read? text = some value) :
      Reads bound text (.number (.float value))
  | name {bound : Nat} {text : List Char} (spelled : isName text = true) :
      Reads bound text (.name (String.ofList text))
  | group {bound : Nat} {text : List Char} {inner : Term} (inside : Reads 3 text inner) :
      Reads bound ('(' :: text ++ [')']) (.group inner)
  | operation {bound : Nat} {op : Operator} {leftText rightText : List Char} {left right : Term}
      (allowed : op.rank < bound)
      (onLeft : Reads (op.rank + 1) leftText left)
      (onRight : Reads op.rank rightText right) :
      Reads bound (leftText ++ op.glyph :: rightText) (.operation op left right)

/-- A run of digits is not empty and holds nothing but the digits `0` to `9`. -/
def DigitRun (text : List Char) : Prop := text ≠ [] ∧ ∀ c ∈ text, c.isDigit = true

/-- The texts that have a meaning: numbers, names, groups, and two such texts with the glyph of
an operator between them. -/
inductive Grammatical : List Char → Prop
  | whole {digits : List Char} (run : DigitRun digits) : Grammatical digits
  | fraction {whole fraction : List Char} (before : DigitRun whole) (behind : DigitRun fraction) :
      Grammatical (whole ++ '.' :: fraction)
  | name {first : Char} {rest : List Char} (letter : first.isLower = true)
      (others : ∀ c ∈ rest, c.isLower = true ∨ c.isDigit = true) : Grammatical (first :: rest)
  | group {text : List Char} (inside : Grammatical text) : Grammatical ('(' :: text ++ [')'])
  | operation {left right : List Char} (op : Operator) (onLeft : Grammatical left)
      (onRight : Grammatical right) : Grammatical (left ++ op.glyph :: right)

end ParamSweep.Formula
