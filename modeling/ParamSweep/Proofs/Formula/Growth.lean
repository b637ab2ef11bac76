import ParamSweep.Formula.Arena

/-!
# The tree that the builder grows

The nodes of an arena are a tree written down in preorder: a node, then everything below its
left child, then everything below its right child. While the builder works, nothing stands
behind the part of the tree that hangs from the cursor. So the state of the builder is a path
from the cursor up to the root, what hangs to the left of that path, and the tree under the
cursor; and a token changes only the node at the cursor or moves along the path.

`Growth` is that state and `Growth.read` what a token does to it. The arena of a growth is its
tree in preorder, and reading a token there is the same as reading it here. A growth forgets
nothing that the arena holds, so whatever is true of the tree is true of the nodes.
-/

namespace ParamSweep.Formula

attribute [ext] Builder

/-- A tree of nodes, in which a child may be absent. -/
inductive Shape
  | absent
  | node (kind : Kind) (left right : Shape)

namespace Shape

/-- How many nodes a tree has. -/
def size : Shape → Nat
  | absent => 0
  | node _ left right => left.size + right.size + 1

/-- The position of the first node of a tree that is written down from `position` on. -/
def place (position : Nat) : Shape → Option Nat
  | absent => none
  | node _ _ _ => some position

/-- The nodes of a tree in preorder, written down from `position` on. -/
def layout (parent : Option Nat) (position : Nat) : Shape → List Node
  | absent => []
  | node kind left right =>
    let behind := position + 1 + left.size
    { kind, parent, left := left.place (position + 1), right := right.place behind } ::
      (left.layout (some position) (position + 1) ++ right.layout (some position) behind)

/-- A tree is laid out in as many nodes as its size says. -/
theorem length_layout (shape : Shape) (parent : Option Nat) (position : Nat) :
    (shape.layout parent position).length = shape.size := by
  induction shape generalizing parent position with
  | absent => rfl
  | node kind left right onLeft onRight => simp [layout, size, onLeft, onRight]

/-- Whether the nodes of an arena from a position on are those of a tree. -/
def StandsIn (shape : Shape) (arena : Arena) (parent : Option Nat) (position : Nat) : Prop :=
  ∃ before behind, before.length = position ∧
    arena.nodes.toList = before ++ shape.layout parent position ++ behind

/-- A tree stands in the arena that is made of its own nodes. -/
theorem standsIn_layout (shape : Shape) :
    shape.StandsIn ⟨(shape.layout none 0).toArray⟩ none 0 := ⟨[], [], rfl, by simp⟩

/-- Where a tree stands in an arena there is its root, and its links lead to where the trees below
it stand. -/
theorem StandsIn.of_node {kind : Kind} {left right : Shape} {arena : Arena} {parent : Option Nat}
    {position : Nat} (stands : (node kind left right).StandsIn arena parent position) :
    arena.nodes[position]? =
        some { kind, parent, left := left.place (position + 1),
               right := right.place (position + 1 + left.size) } ∧
      left.StandsIn arena (some position) (position + 1) ∧
      right.StandsIn arena (some position) (position + 1 + left.size) := by
  obtain ⟨before, behind, reached, laid⟩ := stands
  obtain ⟨root, own⟩ : ∃ root : Node, root =
      { kind, parent, left := left.place (position + 1),
        right := right.place (position + 1 + left.size) } := ⟨_, rfl⟩
  have parts : arena.nodes.toList = before ++ root ::
      (left.layout (some position) (position + 1) ++
        right.layout (some position) (position + 1 + left.size)) ++ behind := by
    rw [laid, own]
    rfl
  rw [← own]
  refine ⟨?_, ⟨before ++ [root], right.layout (some position) (position + 1 + left.size) ++ behind,
    by simp [reached], by simp [parts]⟩,
    ⟨before ++ root :: left.layout (some position) (position + 1), behind, ?_, by simp [parts]⟩⟩
  · rw [← Array.getElem?_toList, parts]
    simp [← reached]
  · rw [List.length_append, List.length_cons, length_layout, reached]
    omega

/-- Whether every node of a tree may stay as it is when the tokens end. -/
def isComplete : Shape → Bool
  | absent => true
  | node kind left right =>
    ({ kind, left := left.place 0, right := right.place 0 } : Node).isComplete &&
      (left.isComplete && right.isComplete)

/-- Only a tree without a root has no place. -/
theorem isNone_place (position : Nat) (shape : Shape) :
    (shape.place position).isNone = true ↔ shape = .absent := by
  cases shape <;> simp [place]

/-- Whether a tree has a place does not depend on where it stands. -/
theorem isSome_place (position other : Nat) (shape : Shape) :
    (shape.place position).isSome = (shape.place other).isSome := by
  cases shape <;> rfl

/-- The builder checks the nodes one by one, wherever they stand. -/
theorem all_layout (shape : Shape) (parent : Option Nat) (position : Nat) :
    (shape.layout parent position).all Node.isComplete = shape.isComplete := by
  induction shape generalizing parent position with
  | absent => rfl
  | node kind left right onLeft onRight =>
    simp only [layout, List.all_cons, List.all_append, onLeft, onRight, isComplete,
      Node.isComplete, ← Option.not_isSome]
    rw [isSome_place (position + 1) 0, isSome_place (position + 1 + left.size) 0]

/-- The tokens of a tree: brackets around a group and around an operation with its operands. -/
def written : Shape → List Token
  | absent => []
  | node (.number value) _ _ => [.number value]
  | node (.name text) _ _ => [.name text]
  | node .group left _ => .opening :: left.written ++ [.closing]
  | node (.operator op) left right =>
    .opening :: left.written ++ .operator op :: right.written ++ [.closing]

/-- Operands have no children, groups have one child and operators have two. -/
inductive Finished : Shape → Prop
  | number (value : Value) : Finished (node (.number value) absent absent)
  | name (text : String) : Finished (node (.name text) absent absent)
  | group {inner : Shape} (inside : Finished inner) : Finished (node .group inner absent)
  | operation (op : Operator) {left right : Shape} (onLeft : Finished left)
      (onRight : Finished right) : Finished (node (.operator op) left right)

/-- In a finished tree every node has the children that it needs. -/
theorem Finished.isComplete {shape : Shape} (finished : Finished shape) :
    shape.isComplete = true := by
  induction finished with
  | number value => rfl
  | name text => rfl
  | @group inner inside inductionHypothesis =>
    have occupied : (inner.place 0).isSome = true := by
      cases inside <;> rfl
    simp only [Shape.isComplete, Node.isComplete, occupied, inductionHypothesis]
    rfl
  | operation op onLeft onRight leftHypothesis rightHypothesis =>
    simp [Shape.isComplete, Node.isComplete, Kind.isGroup, leftHypothesis, rightHypothesis]

end Shape

/-- A node on the path from the cursor to the root, and what hangs to the left of the path: the
path goes on below the left child of a group, or below the right child of an operator. -/
inductive Frame
  | group
  | operator (op : Operator) (left : Shape)

namespace Frame

/-- The tree of a frame with another tree in the place where the path goes on. -/
def around : Frame → Shape → Shape
  | group, inner => .node .group inner .absent
  | operator op left, inner => .node (.operator op) left inner

/-- How many nodes of a frame stand before the place where the path goes on. -/
def size : Frame → Nat
  | group => 1
  | operator _ left => 1 + left.size

/-- The nodes of a frame that stand before the place where the path goes on. -/
def layout (parent : Option Nat) (position : Nat) : Frame → List Node
  | group => [{ kind := .group, parent, left := some (position + 1) }]
  | operator op left =>
    { kind := .operator op, parent, left := left.place (position + 1),
      right := some (position + 1 + left.size) } :: left.layout (some position) (position + 1)

/-- A frame is laid out in as many nodes as its size says. -/
theorem length_layout (frame : Frame) (parent : Option Nat) (position : Nat) :
    (frame.layout parent position).length = frame.size := by
  cases frame with
  | group => rfl
  | operator op left => simp [layout, size, Shape.length_layout, Nat.add_comm]

/-- A frame is written down before the tree inside of it, which hangs from the frame's node. -/
theorem layout_around (frame : Frame) (parent : Option Nat) (position : Nat) (kind : Kind)
    (left right : Shape) :
    (frame.around (.node kind left right)).layout parent position =
      frame.layout parent position ++
        (Shape.node kind left right).layout (some position) (position + frame.size) := by
  cases frame with
  | group => simp [around, layout, size, Shape.layout, Shape.place]
  | operator op before =>
    simp [around, layout, size, Shape.layout, Shape.place, Nat.add_assoc]

end Frame

/-- The path from the cursor to the root, the nearest frame first. -/
abbrev Path := List Frame

namespace Path

/-- How many nodes stand before the cursor. -/
def position : Path → Nat
  | [] => 0
  | frame :: path => position path + frame.size

/-- The position of the parent of the node at the cursor. -/
def parent : Path → Option Nat
  | [] => none
  | _ :: path => some (position path)

/-- The nodes before the cursor. -/
def layout : Path → List Node
  | [] => []
  | frame :: path => layout path ++ frame.layout (parent path) (position path)

/-- The whole tree, with a given tree at the cursor. -/
def around : Path → Shape → Shape
  | [], inner => inner
  | frame :: path, inner => around path (frame.around inner)

/-- As many nodes stand before the cursor as its position says. -/
theorem length_layout (path : Path) : (layout path).length = position path := by
  induction path with
  | nil => rfl
  | cons frame path inductionHypothesis =>
    simp [layout, position, inductionHypothesis, Frame.length_layout]

/-- The nodes of the whole tree are those before the cursor and then those of the tree there. -/
theorem layout_around (path : Path) (kind : Kind) (left right : Shape) :
    (around path (.node kind left right)).layout none 0 =
      layout path ++ (Shape.node kind left right).layout (parent path) (position path) := by
  induction path generalizing kind left right with
  | nil => rfl
  | cons frame path inductionHypothesis =>
    have inside := frame.layout_around (parent path) (position path) kind left right
    cases frame with
    | group =>
      simp only [around, Frame.around, inductionHypothesis] at inside ⊢
      rw [inside]
      simp [layout, parent, position]
    | operator op before =>
      simp only [around, Frame.around, inductionHypothesis] at inside ⊢
      rw [inside]
      simp [layout, parent, position]

end Path

/-- A tree in the making: the path above the cursor, unless the root itself has been left, and
the node at the cursor with what hangs from it. -/
structure Growth where
  path : Option Path
  kind : Kind
  left : Shape
  right : Shape

namespace Growth

/-- The tree under the cursor. -/
def shape (growth : Growth) : Shape := .node growth.kind growth.left growth.right

/-- The whole tree. -/
def whole (growth : Growth) : Shape := Path.around (growth.path.getD []) growth.shape

/-- One blank root with the cursor on it. -/
def start : Growth := { path := some [], kind := .group, left := .absent, right := .absent }

/-- A blank node below a path. -/
def descend (path : Path) : Growth :=
  { path := some path, kind := .group, left := .absent, right := .absent }

/-- A finished tree is left behind and the cursor goes up. -/
def ascend (path : Path) (kind : Kind) (left right : Shape) : Growth :=
  match path with
  | [] => { path := none, kind, left, right }
  | .group :: path =>
    { path := some path, kind := .group, left := .node kind left right, right := .absent }
  | .operator op before :: path =>
    { path := some path, kind := .operator op, left := before, right := .node kind left right }

/-- A blank node becomes an operand and is left behind. -/
def settle (path : Path) (filled : Kind) : Kind → Shape → Shape → Option Growth
  | .group, .absent, .absent => some (ascend path filled .absent .absent)
  | _, _, _ => none

/-- What a token does at the cursor. -/
def read (growth : Growth) (token : Token) : Option Growth :=
  growth.path.bind fun path =>
    match token, growth.kind, growth.left, growth.right with
    | .opening, .group, .absent, .absent => some (descend (.group :: path))
    | .closing, kind, left, right => some (ascend path kind left right)
    | .operator op, .group, left, .absent => some (descend (.operator op left :: path))
    | .number value, kind, left, right => settle path (.number value) kind left right
    | .name text, kind, left, right => settle path (.name text) kind left right
    | _, _, _, _ => none

/-- The state of the builder that a growth stands for. -/
def builder (growth : Growth) : Builder :=
  { nodes := (growth.whole.layout none 0).toArray, cursor := growth.path.map Path.position }

/-- The nodes of a growth whose root has not been left. -/
theorem nodes_builder (path : Path) (kind : Kind) (left right : Shape) :
    (builder ⟨some path, kind, left, right⟩).nodes =
      (Path.layout path ++
        (Shape.node kind left right).layout (Path.parent path) (Path.position path)).toArray := by
  simp [builder, whole, shape, Path.layout_around]

/-- Going up leaves the nodes as they are. -/
theorem builder_ascend (path : Path) (kind : Kind) (left right : Shape) :
    builder (ascend path kind left right) =
      { nodes := (builder ⟨some path, kind, left, right⟩).nodes, cursor := Path.parent path } := by
  cases path with
  | nil => rfl
  | cons frame path => cases frame <;> rfl

/-- The node at the cursor, as the arena holds it. -/
def current (path : Path) (kind : Kind) (left right : Shape) : Node :=
  { kind, parent := Path.parent path, left := left.place (Path.position path + 1),
    right := right.place (Path.position path + 1 + left.size) }

/-- At the position of the path stands the node under the cursor. -/
theorem getElem?_nodes_builder (path : Path) (kind : Kind) (left right : Shape) :
    (builder ⟨some path, kind, left, right⟩).nodes[Path.position path]? =
      some (current path kind left right) := by
  rw [nodes_builder, ← Path.length_layout]
  simp [Shape.layout, current, Path.length_layout]

/-- A change at a position changes the item that stands there and no other. -/
theorem modify_behind {α : Type} {before : List α} {position : Nat}
    (here : before.length = position) (item : α) (rest : List α) (change : α → α) :
    (before ++ item :: rest).modify position change = before ++ change item :: rest := by
  subst here
  induction before with
  | nil => rfl
  | cons first before inductionHypothesis => simp [inductionHypothesis]

/-- A change of the node at the cursor. -/
theorem modify_nodes_builder (path : Path) (kind : Kind) (left right : Shape)
    (change : Node → Node) :
    (builder ⟨some path, kind, left, right⟩).nodes.modify (Path.position path) change =
      (Path.layout path ++ change (current path kind left right) ::
        (left.layout (some (Path.position path)) (Path.position path + 1) ++
          right.layout (some (Path.position path))
            (Path.position path + 1 + left.size))).toArray := by
  rw [nodes_builder, List.modify_toArray]
  exact congrArg _ (modify_behind (Path.length_layout path) _ _ change)

/-- Making a child of the node at the cursor adds a frame to the path, if the node changes to
that of the frame. -/
theorem descend_builder (path : Path) (kind : Kind) (left : Shape) (frame : Frame)
    (adopt : Node → Nat → Node)
    (adopted : adopt (current path kind left .absent) (Path.position path + 1 + left.size) ::
      left.layout (some (Path.position path)) (Path.position path + 1) =
        frame.layout (Path.parent path) (Path.position path)) :
    (builder ⟨some path, kind, left, .absent⟩).descend (Path.position path) adopt =
      builder (descend (frame :: path)) := by
  have child : (builder ⟨some path, kind, left, .absent⟩).nodes.size =
      Path.position path + 1 + left.size := by
    simp only [nodes_builder, List.size_toArray, List.length_append, Path.length_layout,
      Shape.length_layout, Shape.size]
    omega
  have size : frame.size = 1 + left.size := by
    rw [← Frame.length_layout frame (Path.parent path) (Path.position path), ← adopted]
    simp [Shape.length_layout, Nat.add_comm]
  have nodes : (builder (descend (frame :: path))).nodes =
      (Path.layout path ++ frame.layout (Path.parent path) (Path.position path) ++
        [({ parent := some (Path.position path) } : Node)]).toArray := by
    simp [descend, nodes_builder, Path.layout, Path.parent, Shape.layout, Shape.place]
  have cursor : (builder (descend (frame :: path))).cursor =
      some (Path.position path + 1 + left.size) := by
    simp [descend, builder, Path.position, size, Nat.add_assoc]
  apply Builder.ext
  · rw [nodes, ← adopted, Builder.descend, child, modify_nodes_builder]
    simp [Shape.layout]
  · rw [cursor, Builder.descend, child]

/-- The test for a group finds exactly the groups. -/
theorem isGroup_iff (kind : Kind) : kind.isGroup = true ↔ kind = .group := by
  cases kind <;> simp [Kind.isGroup]

/-- A node can still be filled exactly while it is a group without children. -/
theorem isBlank_current (path : Path) (kind : Kind) (left right : Shape) :
    (current path kind left right).isBlank = true ↔
      kind = .group ∧ left = .absent ∧ right = .absent := by
  simp only [Node.isBlank, current, Bool.and_eq_true, isGroup_iff, Shape.isNone_place, and_assoc]

/-- Filling the node at the cursor, if it is blank. -/
theorem fill_builder (path : Path) (filled kind : Kind) (left right : Shape) :
    (builder ⟨some path, kind, left, right⟩).fill (Path.position path)
        (current path kind left right) filled =
      (settle path filled kind left right).map builder := by
  by_cases blank : kind = .group ∧ left = .absent ∧ right = .absent
  · rw [Builder.fill, if_pos ((isBlank_current path kind left right).mpr blank)]
    obtain ⟨rfl, rfl, rfl⟩ := blank
    rw [modify_nodes_builder, settle, Option.map_some, builder_ascend, nodes_builder]
    rfl
  · have refused : settle path filled kind left right = none := by
      unfold settle
      split
      · exact absurd ⟨rfl, rfl, rfl⟩ blank
      · rfl
    rw [Builder.fill, if_neg (mt (isBlank_current path kind left right).mp blank), refused]
    rfl

/-- Reading a token changes the nodes as it changes the tree. -/
theorem read_builder (growth : Growth) (token : Token) :
    growth.builder.read token = (growth.read token).map builder := by
  obtain ⟨path, kind, left, right⟩ := growth
  cases path with
  | none => rfl
  | some path =>
    have cursor : (builder ⟨some path, kind, left, right⟩).cursor = some path.position := rfl
    simp only [Builder.read, read, cursor, Option.bind_eq_bind, Option.bind_some,
      getElem?_nodes_builder]
    cases token with
    | opening =>
      by_cases blank : kind = .group ∧ left = .absent ∧ right = .absent
      · simp only [(isBlank_current path kind left right).mpr blank, if_true]
        obtain ⟨rfl, rfl, rfl⟩ := blank
        exact congrArg some (descend_builder path .group .absent .group _ rfl)
      · have occupied := mt (isBlank_current path kind left right).mp blank
        simp only [occupied, Bool.false_eq_true, if_false]
        split <;> simp_all
    | closing => exact congrArg some (builder_ascend path kind left right).symm
    | operator op =>
      by_cases free : kind = .group ∧ right = .absent
      · obtain ⟨rfl, rfl⟩ := free
        exact congrArg some (descend_builder path .group left (.operator op left) _ rfl)
      · have taken : ((current path kind left right).kind.isGroup &&
            (current path kind left right).right.isNone) = false := by
          simpa [current, Bool.eq_false_iff, isGroup_iff, ← Option.isNone_iff_eq_none,
            Shape.isNone_place] using free
        simp only [taken, Bool.false_eq_true, if_false]
        split <;> simp_all
    | number value => exact fill_builder path (.number value) kind left right
    | name text => exact fill_builder path (.name text) kind left right

/-- Reading tokens one after the other changes the nodes as it changes the tree. -/
theorem foldlM_builder (tokens : List Token) (growth : Growth) :
    tokens.foldlM Builder.read growth.builder = (tokens.foldlM read growth).map builder := by
  induction tokens generalizing growth with
  | nil => rfl
  | cons token rest inductionHypothesis =>
    simp only [List.foldlM_cons, read_builder, Option.bind_eq_bind]
    cases growth.read token with
    | none => rfl
    | some next => exact inductionHypothesis next

/-- The arena of some tokens is the tree that grows from them, written down in preorder, if
every token fits and every node of the tree is complete. -/
theorem ofTokens?_eq (tokens : List Token) :
    Arena.ofTokens? tokens =
      (tokens.foldlM read start).bind fun growth =>
        if growth.whole.isComplete then some ⟨(growth.whole.layout none 0).toArray⟩
        else none := by
  have grown : tokens.foldlM Builder.read .start = (tokens.foldlM read start).map builder :=
    foldlM_builder tokens start
  rw [Arena.ofTokens?, grown]
  cases tokens.foldlM read start with
  | none => rfl
  | some growth =>
    have complete : (growth.whole.layout none 0).toArray.all Node.isComplete =
        growth.whole.isComplete := by
      rw [List.all_toArray, Shape.all_layout]
    simp only [Option.map_some, Option.bind_eq_bind, Option.bind_some, builder, complete]

/-- A finished tree at the cursor is left behind; with nothing there, the node stays blank. -/
def leave (path : Path) : Shape → Growth
  | .absent => descend path
  | .node kind left right => ascend path kind left right

/-- Reading the tokens of a finished tree puts the tree where the cursor is and goes up.

Proof: by induction on the tree. An opening bracket makes a left child, the tokens of the first
operand fill it and return; then an operator makes the right child, which is filled likewise,
and the closing bracket leaves the node. -/
theorem foldlM_written {shape : Shape} (finished : shape.Finished) (path : Path)
    (rest : List Token) :
    (shape.written ++ rest).foldlM read (descend path) = rest.foldlM read (leave path shape) := by
  induction finished generalizing path rest with
  | number value => rfl
  | name text => rfl
  | @group inner inside inductionHypothesis =>
    have returned : leave (.group :: path) inner =
        { path := some path, kind := .group, left := inner, right := .absent } := by
      cases inside <;> rfl
    have opened : read (descend path) .opening = some (descend (.group :: path)) := rfl
    simp only [Shape.written, List.cons_append, List.append_assoc, List.foldlM_cons, opened,
      Option.bind_eq_bind, Option.bind_some, inductionHypothesis, returned]
    rfl
  | @operation op left right onLeft onRight leftHypothesis rightHypothesis =>
    have leftReturned : leave (.group :: path) left =
        { path := some path, kind := .group, left, right := .absent } := by
      cases onLeft <;> rfl
    have rightReturned : leave (.operator op left :: path) right =
        { path := some path, kind := .operator op, left, right } := by
      cases onRight <;> rfl
    have opened : read (descend path) .opening = some (descend (.group :: path)) := rfl
    have turned : read { path := some path, kind := .group, left, right := .absent }
        (.operator op) = some (descend (.operator op left :: path)) := rfl
    simp only [Shape.written, List.cons_append, List.append_assoc, List.foldlM_cons, opened,
      Option.bind_eq_bind, Option.bind_some, leftHypothesis, leftReturned, turned,
      rightHypothesis, rightReturned]
    rfl

/-- A finished tree is what the arena of its tokens holds. -/
theorem ofTokens?_written {shape : Shape} (finished : shape.Finished) :
    Arena.ofTokens? shape.written = some ⟨(shape.layout none 0).toArray⟩ := by
  have grown : shape.written.foldlM read start = some (leave [] shape) := by
    have read := foldlM_written finished [] []
    rw [List.append_nil] at read
    exact read
  have whole : (leave [] shape).whole = shape := by cases finished <;> rfl
  simp [ofTokens?_eq, grown, whole, finished.isComplete]

end Growth

end ParamSweep.Formula
