import ParamSweep.Formula.Token

/-!
# The arena of a formula

The nodes of a formula live in one array and name each other by position. A node comes into
being when its parent meets an opening bracket or an operator, so a child always stands behind
its parent and the first node is the root.

The builder reads bracketed tokens with a cursor. An opening bracket makes a left child and
goes there; a closing bracket returns to the parent; an operator settles what the current node
is, makes its right child and goes there; a number or a name fills the current node and
returns to the parent. A bracket thus becomes a group node of its own only if no operator
follows in it. Tokens that do not fit where the cursor stands are refused, and so is a finished
arena in which some group holds nothing or more than one operand.
-/

namespace ParamSweep.Formula

/-- What a node holds. A node starts as a group and may be settled once. -/
inductive Kind
  | group
  | number (value : Value)
  | name (text : String)
  | operator (op : Operator)
  deriving Repr

/-- Whether nothing has settled the kind of a node. -/
def Kind.isGroup : Kind → Bool
  | group => true
  | _ => false

/-- A node and the positions of its parent and its children. -/
structure Node where
  kind : Kind := .group
  parent : Option Nat := none
  left : Option Nat := none
  right : Option Nat := none
  deriving Repr

namespace Node

/-- Whether nothing was put into a node yet. -/
def isBlank (node : Node) : Bool :=
  node.kind.isGroup && node.left.isNone && node.right.isNone

/-- Whether a node may stay as it is when the tokens end: a group has exactly a left child. -/
def isComplete (node : Node) : Bool :=
  !node.kind.isGroup || (node.left.isSome && node.right.isNone)

end Node

/-- The nodes of a formula, the root first. -/
structure Arena where
  nodes : Array Node
  deriving Repr

/-- An arena in the making, and the node that the next token is for. The cursor is gone once
the root itself has been left. -/
structure Builder where
  nodes : Array Node
  cursor : Option Nat
  deriving Repr

namespace Builder

/-- One blank root with the cursor on it. -/
def start : Builder := { nodes := #[{}], cursor := some 0 }

/-- Makes a child of the node at `parent` and goes there. The parent learns of its child
through `adopt`. -/
def descend (builder : Builder) (parent : Nat) (adopt : Node → Nat → Node) : Builder :=
  let child := builder.nodes.size
  { nodes := (builder.nodes.modify parent (adopt · child)).push { parent := some parent }
    cursor := some child }

/-- Settles a blank node as an operand and returns to its parent. -/
def fill (builder : Builder) (position : Nat) (node : Node) (kind : Kind) : Option Builder :=
  if node.isBlank then
    some
      { nodes := builder.nodes.modify position ({ · with kind := kind })
        cursor := node.parent }
  else
    none

/-- Reads one token at the cursor. -/
def read (builder : Builder) (token : Token) : Option Builder := do
  let position ← builder.cursor
  let node ← builder.nodes[position]?
  match token with
  | .opening =>
    if node.isBlank then
      some (builder.descend position fun node child => { node with left := some child })
    else
      none
  | .closing => some { builder with cursor := node.parent }
  | .operator op =>
    if node.kind.isGroup && node.right.isNone then
      some (builder.descend position fun node child =>
        { node with kind := .operator op, right := some child })
    else
      none
  | .number value => builder.fill position node (.number value)
  | .name text => builder.fill position node (.name text)

end Builder

/-- The arena of a list of tokens, if every token fits and no group is left incomplete. -/
def Arena.ofTokens? (tokens : List Token) : Option Arena := do
  let builder ← tokens.foldlM Builder.read .start
  if builder.nodes.all Node.isComplete then some ⟨builder.nodes⟩ else none

end ParamSweep.Formula
