import ParamSweep.Formula.Evaluation
import ParamSweep.Proofs.Formula.Growth

/-!
# The walk over the nodes of a tree

A tree written down in preorder has the nodes of every subtree next to each other. So the walk
from the last node to the first finishes the right child of a node, then the left child, and
then comes to the node itself; what it fills in for one subtree is still there when the parent
looks at it, since the walk never writes behind itself.

`Shape.value` is the value of a tree by recursion, without positions. The walk over the nodes of
a tree comes to the same value, or to the same fault.
-/

namespace ParamSweep.Formula

/-- The value of a node with given values of its children. -/
def Kind.value (valuation : Valuation) (leftValue rightValue : Value) :
    Kind → Except FormulaFault Value
  | .number value => .ok value
  | .name text =>
    match valuation text with
    | some value => .ok value
    | none => .error (.unknownVariable text)
  | .group => .ok leftValue
  | .operator op => .ok (op.apply leftValue rightValue)

/-- The value of a node is made of its kind and the values of its children. -/
theorem Node.value_eq (valuation : Valuation) (values : Array Value) (node : Node) :
    node.value valuation values =
      node.kind.value valuation (childValue values node.left) (childValue values node.right) := by
  obtain ⟨kind, parent, left, right⟩ := node
  cases kind <;> rfl

namespace Shape

/-- The value of a tree, the right child of a node before the left one; an absent child counts
as zero. -/
def value (valuation : Valuation) : Shape → Except FormulaFault Value
  | absent => .ok (.float 0)
  | node kind left right => do
    let rightValue ← right.value valuation
    let leftValue ← left.value valuation
    kind.value valuation leftValue rightValue

/-- Fills in the values of the nodes of a tree that is written down from `position` on. -/
def fill (valuation : Valuation) (position : Nat) :
    Shape → Array Value → Except FormulaFault (Array Value)
  | absent, values => .ok values
  | node kind left right, values => do
    let behind := position + 1 + left.size
    let rightFilled ← right.fill valuation behind values
    let leftFilled ← left.fill valuation (position + 1) rightFilled
    let value ← kind.value valuation (childValue leftFilled (left.place (position + 1)))
      (childValue leftFilled (right.place behind))
    return leftFilled.setIfInBounds position value

/-- The walk comes to a node whose position is known. -/
theorem fillValues_succ (arena : Arena) (valuation : Valuation) (position : Nat) (node : Node)
    (stands : arena.nodes.toList[position]? = some node)
    (inside : position + 1 ≤ arena.nodes.size) (values : Array Value) :
    arena.fillValues valuation (position + 1) inside values =
      node.value valuation values >>= fun value =>
        arena.fillValues valuation position (Nat.le_of_succ_le inside)
          (values.setIfInBounds position value) := by
  have found : arena.nodes[position] = node := by
    rw [Array.getElem?_toList, Array.getElem?_eq_getElem inside] at stands
    exact Option.some.inj stands
  rw [Arena.fillValues, found]

/-- The walk over the nodes up to the end of a tree fills in the tree and goes on before it.

Proof: by induction on the tree. The nodes of the right child stand last, those of the left
child before them, and the node itself before both. -/
theorem fillValues_layout (shape : Shape) (valuation : Valuation) (arena : Arena)
    (parent : Option Nat) (position : Nat) (before behind : List Node)
    (reached : before.length = position)
    (laid : arena.nodes.toList = before ++ shape.layout parent position ++ behind)
    (count : Nat) (counted : count = position + shape.size)
    (inside : count ≤ arena.nodes.size) (first : position ≤ arena.nodes.size)
    (values : Array Value) :
    arena.fillValues valuation count inside values =
      shape.fill valuation position values >>= arena.fillValues valuation position first := by
  induction shape generalizing parent position before behind count values with
  | absent =>
    obtain rfl : count = position := counted
    rfl
  | node kind left right onLeft onRight =>
    obtain ⟨own, stands⟩ : ∃ own : Node, own =
        { kind, parent, left := left.place (position + 1),
          right := right.place (position + 1 + left.size) } := ⟨_, rfl⟩
    have parts : arena.nodes.toList = before ++ own ::
        (left.layout (some position) (position + 1) ++
          right.layout (some position) (position + 1 + left.size)) ++ behind := by
      rw [laid, stands]
      rfl
    have overRight := onRight (some position) (position + 1 + left.size)
      (before ++ own :: left.layout (some position) (position + 1)) behind
      (by simp [length_layout, reached]; omega) (by simp [parts])
      count (by simp only [counted, size]; omega) inside
    have overLeft := onLeft (some position) (position + 1) (before ++ [own])
      (right.layout (some position) (position + 1 + left.size) ++ behind)
      (by simp [reached]) (by simp [parts]) (position + 1 + left.size) rfl
    have here : arena.nodes.toList[position]? = some own := by
      simp [parts, ← reached]
    have overNode := fillValues_succ arena valuation position own here
    simp only [size] at counted
    rw [overRight (by omega), fill, bind_assoc]
    congr 1
    funext rightFilled
    rw [overLeft (by omega) (by omega), bind_assoc]
    congr 1
    funext leftFilled
    rw [overNode (by omega), Node.value_eq, stands, bind_assoc]
    rfl

/-- What filling in a tree leaves: the value of the tree stands at its first node, and nothing
has changed behind its last one. -/
structure Filled (shape : Shape) (position : Nat) (value : Value) (values filled : Array Value) :
    Prop where
  size_eq : filled.size = values.size
  root : childValue filled (shape.place position) = value
  behind : ∀ later, position + shape.size ≤ later → filled[later]? = values[later]?

/-- The child of a node keeps its value while nodes before the child are filled in. -/
theorem childValue_place {shape : Shape} {position : Nat} {values filled : Array Value}
    (same : ∀ later, position ≤ later → filled[later]? = values[later]?) :
    childValue filled (shape.place position) = childValue values (shape.place position) := by
  cases shape with
  | absent => rfl
  | node kind left right =>
    simp only [place, childValue, Array.getD_eq_getD_getElem?, same position (Nat.le_refl _)]

/-- Filling in a tree comes to the value of the tree or to its fault.

Proof: by induction on the tree. The right child is filled in first and lies behind the left
one, so its value is still there when both are looked at. -/
theorem fill_eq (shape : Shape) (valuation : Valuation) (position : Nat) (values : Array Value)
    (room : position + shape.size ≤ values.size) :
    match shape.value valuation with
    | .error fault => shape.fill valuation position values = .error fault
    | .ok value => ∃ filled, shape.fill valuation position values = .ok filled ∧
        shape.Filled position value values filled := by
  induction shape generalizing position values with
  | absent => exact ⟨values, rfl, rfl, rfl, fun later behind => rfl⟩
  | node kind left right onLeft onRight =>
    simp only [size] at room
    have overRight := onRight (position + 1 + left.size) values (by omega)
    cases rightValue : right.value valuation with
    | error fault =>
      simp only [rightValue] at overRight
      simp [value, fill, rightValue, overRight, bind, Except.bind]
    | ok rightResult =>
      simp only [rightValue] at overRight
      obtain ⟨rightFilled, rightDone, rightLeaves⟩ := overRight
      have overLeft := onLeft (position + 1) rightFilled (by rw [rightLeaves.size_eq]; omega)
      cases leftValue : left.value valuation with
      | error fault =>
        simp only [leftValue] at overLeft
        simp [value, fill, rightValue, leftValue, rightDone, overLeft, bind, Except.bind]
      | ok leftResult =>
        simp only [leftValue] at overLeft
        obtain ⟨leftFilled, leftDone, leftLeaves⟩ := overLeft
        -- The walk over the left tree wrote nothing behind it, where the right tree stands.
        have rightKept : childValue leftFilled (right.place (position + 1 + left.size)) =
            rightResult := by
          rw [childValue_place leftLeaves.behind, rightLeaves.root]
        have size_eq : leftFilled.size = values.size :=
          leftLeaves.size_eq.trans rightLeaves.size_eq
        cases own : kind.value valuation leftResult rightResult with
        | error fault =>
          simp [value, fill, rightValue, leftValue, rightDone, leftDone, leftLeaves.root,
            rightKept, own, bind, Except.bind]
        | ok result =>
          simp only [value, rightValue, leftValue, own, bind, Except.bind]
          refine ⟨leftFilled.setIfInBounds position result, ?_, ?_, ?_, ?_⟩
          · simp [fill, rightDone, leftDone, leftLeaves.root, rightKept, own, bind, Except.bind,
              pure, Except.pure]
          · rw [Array.size_setIfInBounds, size_eq]
          · have inside : position < leftFilled.size := by omega
            simp [childValue, place, inside]
          · intro later behind
            simp only [size] at behind
            rw [Array.getElem?_setIfInBounds_ne (by omega), leftLeaves.behind later (by omega),
              rightLeaves.behind later (by omega)]

end Shape

/-- The value of an arena that holds a tree in preorder is the value of the tree. -/
theorem Arena.value_layout (shape : Shape) (valuation : Valuation) :
    Arena.value ⟨(shape.layout none 0).toArray⟩ valuation = shape.value valuation := by
  have length : (shape.layout none 0).toArray.size = shape.size := by
    rw [List.size_toArray, Shape.length_layout]
  have walked := shape.fillValues_layout valuation ⟨(shape.layout none 0).toArray⟩ none 0 [] []
    rfl (by simp) _ (by rw [length, Nat.zero_add]) (Nat.le_refl _) (Nat.zero_le _)
    (Array.replicate (shape.layout none 0).toArray.size (.float 0))
  have filled := shape.fill_eq valuation 0
    (Array.replicate (shape.layout none 0).toArray.size (.float 0)) (by simp [length])
  rw [Arena.value, walked]
  cases result : shape.value valuation with
  | error fault =>
    simp only [result] at filled
    rw [filled]
    rfl
  | ok value =>
    simp only [result] at filled
    obtain ⟨values, done, leaves⟩ := filled
    have root : values.getD 0 (.float 0) = value := by
      cases shape with
      | absent =>
        obtain rfl : values = #[] := Array.eq_empty_of_size_eq_zero leaves.size_eq
        exact Except.ok.inj result
      | node kind left right => exact leaves.root
    rw [done]
    exact congrArg Except.ok root

end ParamSweep.Formula
