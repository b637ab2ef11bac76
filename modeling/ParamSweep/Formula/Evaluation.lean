import ParamSweep.Fault
import ParamSweep.Formula.Arena
import ParamSweep.Formula.Valuation

/-!
# Evaluation from the end of the arena

Children stand behind their parents, so a walk from the last node to the first meets every
child before its parent and needs no recursion into the tree. The walk looks at every node: if
several names have no value, the one in the last node is reported, even where another operand
is undefined already. A child that an operator lacks counts as zero.
-/

namespace ParamSweep.Formula

/-- The value at the position of a child; an absent child counts as zero. -/
def childValue (values : Array Value) (child : Option Nat) : Value :=
  match child with
  | none => .float 0
  | some position => values.getD position (.float 0)

/-- The value of a node when the values of its children are known. -/
def Node.value (valuation : Valuation) (values : Array Value) (node : Node) :
    Except FormulaFault Value :=
  match node.kind with
  | .number value => .ok value
  | .name text =>
    match valuation text with
    | some value => .ok value
    | none => .error (.unknownVariable text)
  | .group => .ok (childValue values node.left)
  | .operator op => .ok (op.apply (childValue values node.left) (childValue values node.right))

namespace Arena

/-- Fills in the values of the first `count` nodes, the last of them first. -/
def fillValues (arena : Arena) (valuation : Valuation) :
    (count : Nat) → count ≤ arena.nodes.size → Array Value → Except FormulaFault (Array Value)
  | 0, _, values => .ok values
  | position + 1, inside, values => do
    let value ← arena.nodes[position].value valuation values
    arena.fillValues valuation position (Nat.le_of_succ_le inside)
      (values.setIfInBounds position value)

/-- The value of the root. -/
def value (arena : Arena) (valuation : Valuation) : Except FormulaFault Value := do
  let blank := Array.replicate arena.nodes.size (Value.float 0)
  let values ← arena.fillValues valuation arena.nodes.size (Nat.le_refl _) blank
  return values.getD 0 (.float 0)

end Arena

end ParamSweep.Formula
