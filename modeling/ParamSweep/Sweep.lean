import ParamSweep.Aggregate
import ParamSweep.Answer
import ParamSweep.Formula.Basic
import ParamSweep.Space.Walk

/-!
# Sweeps

A sweep evaluates formulas at every point of a space and aggregates all their values into one
answer. The space is made first, so a space that cannot be made is reported whatever the
formulas are. A sweep that only counts answers with the size of its space and looks at no
formula. Otherwise the formulas come in order: each is prepared, then evaluated at every
point, and the first fault ends the sweep.
-/

namespace ParamSweep

/-- What to compute: the formulas to evaluate, the space to do it in, and what is wanted. -/
structure Sweep where
  aggregate : Aggregate
  kind : SpaceKind
  domains : List Domain
  formulas : List String
  deriving Repr

namespace Sweep

/-- Adds the values of one prepared formula at every point of a space. -/
def tallyPoints (space : Space) (formula : Formula) (tally : Tally) :
    Except FormulaFault Tally :=
  Walk.visit
    (fun tally assignment => do
      let value ← formula.value assignment.valuation
      return tally.push value.toFloat)
    space.size space.walk tally

/-- Prepares one formula and adds its values. -/
def tallyFormula (space : Space) (tally : Tally) (source : String) :
    Except FormulaFault Tally := do
  let formula ← (Formula.ofText source).prepare
  tallyPoints space formula tally

/-- Adds the values of all formulas, in order. -/
def tallyFormulas (space : Space) (formulas : List String) : Except FormulaFault Tally :=
  formulas.foldlM (tallyFormula space) .empty

/-- Computes the answer of a sweep. -/
def run (sweep : Sweep) : Except Fault Answer := do
  let space ← Space.make sweep.domains sweep.kind
  if sweep.aggregate = .count then
    return .whole space.size
  else
    let tally ← (tallyFormulas space sweep.formulas).mapError Fault.formula
    return .decimal (tally.finish sweep.aggregate)

end Sweep

end ParamSweep
