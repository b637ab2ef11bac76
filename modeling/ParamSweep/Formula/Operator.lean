import ParamSweep.Formula.Value

/-!
# Operators

The five operators of a formula, their glyphs, the strength with which they bind, and what
they compute. A result that is infinite counts as undefined, and so does every result with a signal
among the operands; so an operator yields a finite number or the undefined value.
-/

namespace ParamSweep.Formula

/-- An operator between two operands. -/
inductive Operator
  | add
  | sub
  | mul
  | div
  | pow
  deriving DecidableEq, Repr

/-- The strength of an operator. All operators of one tier bind alike, from left to right. -/
inductive Tier
  | power
  | product
  | sum
  deriving DecidableEq, Repr

namespace Operator

/-- The operator that a glyph stands for. -/
def ofGlyph? : Char → Option Operator
  | '+' => some add
  | '-' => some sub
  | '*' => some mul
  | '/' => some div
  | '^' => some pow
  | _ => none

/-- The glyph that stands for an operator. -/
def glyph : Operator → Char
  | add => '+'
  | sub => '-'
  | mul => '*'
  | div => '/'
  | pow => '^'

/-- The tier of an operator. -/
def tier : Operator → Tier
  | pow => .power
  | mul | div => .product
  | add | sub => .sum

/-- The result of an operator on two floats. -/
def compute (op : Operator) (left right : Float) : Float :=
  match op with
  | add => left + right
  | sub => left - right
  | mul => left * right
  | div => left / right
  | pow => left.pow right

/-- The value of an operator on two operands. An infinite result is undefined, and a signal
makes every result undefined. -/
def apply (op : Operator) : Value → Value → Value
  | .float left, .float right =>
    let result := op.compute left right
    if result.isInf then .undefined else .float result
  | _, _ => .undefined

end Operator

/-- The tiers in the order in which they take their operands. -/
def Tier.strongestFirst : List Tier := [.power, .product, .sum]

end ParamSweep.Formula
