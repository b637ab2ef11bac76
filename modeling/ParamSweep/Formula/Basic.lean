import ParamSweep.Formula.Bracketing
import ParamSweep.Formula.Evaluation
import ParamSweep.Text.Blank

/-!
# Formulas

A formula is made from its text, prepared once and then evaluated any number of times.
Preparing drops the blanks, reads the tokens, brackets them and builds the arena; each of the
last three steps can find the text malformed, and a text of nothing but blanks is empty. A
formula that was never prepared has no value.
-/

namespace ParamSweep

open Formula in
/-- A formula with its text, and its arena once it is prepared. A formula may lack a text;
then it cannot be prepared. -/
structure Formula where
  source : Option String
  arena : Option Arena := none
  deriving Repr

namespace Formula

/-- A formula that is still to be prepared. -/
def ofText (text : String) : Formula := { source := some text }

/-- A formula without a text. -/
def absent : Formula := { source := none }

/-- Whether a formula has been prepared. -/
def isPrepared (formula : Formula) : Bool := formula.arena.isSome

/-- Every way in which the tokens of a text fail to make a formula is the same fault. -/
def orMalformed {α : Type} (result : Option α) : Except FormulaFault α :=
  match result with
  | some value => .ok value
  | none => .error .malformed

/-- The arena of a text without blanks. -/
def arenaOfText? (text : List Char) : Option Arena := do
  let tokens ← tokens? text
  let bracketed ← bracketed? tokens
  Arena.ofTokens? bracketed

/-- The formula with its arena. A prepared formula is prepared anew from the same text. -/
def prepare (formula : Formula) : Except FormulaFault Formula :=
  match formula.source.map (Text.withoutBlanks ·.toList) with
  | none => .error .empty
  | some [] => .error .empty
  | some text => do
    let arena ← orMalformed (arenaOfText? text)
    return { formula with arena := some arena }

/-- The value of a prepared formula. -/
def value (formula : Formula) (valuation : Valuation) : Except FormulaFault Value :=
  match formula.arena with
  | none => .error .unprepared
  | some arena => arena.value valuation

end Formula

end ParamSweep
