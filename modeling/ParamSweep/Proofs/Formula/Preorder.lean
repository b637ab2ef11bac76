import Mathlib.Logic.Relation
import ParamSweep.Proofs.Formula.Recursion

/-!
# How the nodes of an arena are arranged

At every moment of building, the nodes are a tree in preorder: the first node is its root, every
other one is a child of the node that it names as its parent, and following the links from the root,
to the left before the right, meets all nodes in the order in which they stand. This holds for
tokens of any kind, also for those that leave a blank node behind.

The cursor stands on the way from the last node up to the root. So a blank node at the cursor is the
last one, and the operands that are put into such nodes stand in the order of their tokens. What a
node has been settled as and where its links lead does not change any more.
-/

namespace ParamSweep.Formula

/-- The operand that a token is, as a node holds it. -/
def Token.operand? : Token → Option Kind
  | .number value => some (.number value)
  | .name text => some (.name text)
  | _ => none

/-- The operand in a node of some kind, if it holds one. -/
def Kind.operand? : Kind → Option Kind
  | .number value => some (.number value)
  | .name text => some (.name text)
  | _ => none

namespace Node

/-- Whether a node has a certain child. -/
def LinksTo (node : Node) (child : Nat) : Prop := node.left = some child ∨ node.right = some child

/-- What has been settled in a node stays as it is. -/
structure Keeps (node later : Node) : Prop where
  kind : node.kind.isGroup = false → later.kind = node.kind
  parent : later.parent = node.parent
  left : ∀ child, node.left = some child → later.left = some child
  right : ∀ child, node.right = some child → later.right = some child

end Node

namespace Arena

/-- The nodes that are met from a link on: the node that it leads to, then those to the left, then
those to the right. -/
inductive Visits (arena : Arena) : Option Nat → List Nat → Prop
  | absent : Visits arena none []
  | node {position : Nat} {node : Node} {inLeft inRight : List Nat}
      (stands : arena.nodes[position]? = some node) (onLeft : Visits arena node.left inLeft)
      (onRight : Visits arena node.right inRight) :
      Visits arena (some position) (position :: (inLeft ++ inRight))

/-- From a node to its parent. -/
def StepsUp (arena : Arena) (position parent : Nat) : Prop :=
  ∃ node, arena.nodes[position]? = some node ∧ node.parent = some parent

/-- Where a node of a tree hangs that stands from a position on: it is the root of the tree, or its
parent is an earlier node of the tree and has a link to it. -/
inductive Hangs (arena : Arena) (position : Nat) (parent : Option Nat) : Nat → Option Nat → Prop
  | root : Hangs arena position parent position parent
  | link {within outer : Nat} {upper : Node} (least : position ≤ outer) (before : outer < within)
      (stands : arena.nodes[outer]? = some upper) (links : upper.LinksTo within) :
      Hangs arena position parent within (some outer)

/-- A node at its place: only the first one has no parent, and any other is the left or the right
child of its parent, which stands before it, and of no other node. -/
structure Places (arena : Arena) (position : Nat) (node : Node) : Prop where
  root : node.parent = none ↔ position = 0
  earlier : ∀ parent, node.parent = some parent → parent < position
  linked : ∀ parent, node.parent = some parent ↔
    ∃ above, arena.nodes[parent]? = some above ∧ above.LinksTo position
  inside : ∀ child, node.LinksTo child → child < arena.nodes.size
  once : ∀ child, node.left = some child → node.right ≠ some child

/-- The operands in the nodes, in their order. -/
def operands (arena : Arena) : List Kind :=
  arena.nodes.toList.filterMap fun node => node.kind.operand?

end Arena

namespace Builder

/-- The arena as far as it has been built. -/
def arena (builder : Builder) : Arena := ⟨builder.nodes⟩

/-- The nodes are a tree in preorder, and the cursor is on the way from the last one to the root. -/
structure Arranged (builder : Builder) : Prop where
  places : ∀ (position : Nat) (node : Node), builder.nodes[position]? = some node →
    builder.arena.Places position node
  preorder : builder.arena.Visits (some 0) (List.range builder.nodes.size)
  cursor : ∀ position, builder.cursor = some position →
    Relation.ReflTransGen builder.arena.StepsUp (builder.nodes.size - 1) position

/-- What has been settled in the nodes stays as it is, and no node is lost. -/
def Keeps (builder later : Builder) : Prop :=
  ∀ (position : Nat) (node : Node), builder.nodes[position]? = some node →
    ∃ kept, later.nodes[position]? = some kept ∧ node.Keeps kept

end Builder

/-! ### Trees in an arena -/

namespace Arena.Hangs

variable {arena : Arena} {position within : Nat} {above : Option Nat}

/-- What hangs in a tree below a link hangs in the tree around it. -/
theorem around {first : Nat} {parent : Option Nat} {root : Node}
    (hangs : arena.Hangs first (some position) within above)
    (here : arena.nodes[position]? = some root) (links : root.LinksTo first)
    (behind : position < first) : arena.Hangs position parent within above := by
  cases hangs with
  | root => exact .link (Nat.le_refl _) behind here links
  | link least before stands links => exact .link (by omega) before stands links

/-- In a tree that stands from the start only the root has no parent. -/
theorem eq_none_iff (hangs : arena.Hangs 0 none within above) : above = none ↔ within = 0 := by
  cases hangs with
  | root => exact ⟨fun _ => rfl, fun _ => rfl⟩
  | link least before stands links =>
    constructor
    · intro none
      cases none
    · intro first
      omega

/-- A node that hangs from another stands behind it, and the other one links to it. -/
theorem of_eq_some (hangs : arena.Hangs 0 none within above) {outer : Nat}
    (known : above = some outer) :
    outer < within ∧ ∃ upper, arena.nodes[outer]? = some upper ∧ upper.LinksTo within := by
  cases hangs with
  | root => cases known
  | link least before stands links =>
    cases known
    exact ⟨before, _, stands, links⟩

end Arena.Hangs

namespace Shape

variable {shape : Shape} {arena : Arena} {parent : Option Nat} {position : Nat}

/-- Following the links of a tree meets its nodes in the order in which they stand. -/
theorem StandsIn.visits (stands : shape.StandsIn arena parent position) :
    arena.Visits (shape.place position) (List.range' position shape.size) := by
  induction shape generalizing parent position with
  | absent => exact .absent
  | node kind left right leftHypothesis rightHypothesis =>
    obtain ⟨here, onLeft, onRight⟩ := stands.of_node
    have order : List.range' position (node kind left right).size = position ::
        (List.range' (position + 1) left.size ++
          List.range' (position + 1 + left.size) right.size) := by
      rw [List.range'_append_1, ← List.range'_succ]
      rfl
    rw [order]
    exact .node here (leftHypothesis onLeft) (rightHypothesis onRight)

/-- A tree that is not absent has its root where it stands. -/
theorem place_eq_some {position : Nat} (nonempty : 0 < shape.size) :
    shape.place position = some position := by
  cases shape with
  | absent => exact absurd nonempty (Nat.lt_irrefl 0)
  | node kind left right => rfl

/-- At every position within a tree stands one of its subtrees, and hangs there. -/
theorem StandsIn.exists_subtree (stands : shape.StandsIn arena parent position) {within : Nat}
    (least : position ≤ within) (most : within < position + shape.size) :
    ∃ kind left right above, (node kind left right).StandsIn arena above within ∧
      arena.Hangs position parent within above := by
  induction shape generalizing parent position with
  | absent => exact absurd most (Nat.not_lt_of_le least)
  | node kind left right leftHypothesis rightHypothesis =>
    obtain ⟨here, onLeft, onRight⟩ := stands.of_node
    rw [size] at most
    obtain rfl | behind := Nat.eq_or_lt_of_le least
    · exact ⟨kind, left, right, parent, stands, .root⟩
    obtain inLeft | inRight := Nat.lt_or_ge within (position + 1 + left.size)
    · obtain ⟨kind', left', right', above, below, hangs⟩ := leftHypothesis onLeft behind inLeft
      have links : left.place (position + 1) = some (position + 1) := place_eq_some (by omega)
      exact ⟨kind', left', right', above, below, hangs.around here (.inl links) (by omega)⟩
    · obtain ⟨kind', left', right', above, below, hangs⟩ :=
        rightHypothesis onRight inRight (by omega)
      have links : right.place (position + 1 + left.size) = some (position + 1 + left.size) :=
        place_eq_some (by omega)
      exact ⟨kind', left', right', above, below, hangs.around here (.inr links) (by omega)⟩

/-- From every node of a tree the parents lead up to its root. -/
theorem StandsIn.stepsUp (stands : shape.StandsIn arena parent position) (within : Nat)
    (least : position ≤ within) (most : within < position + shape.size) :
    Relation.ReflTransGen arena.StepsUp within position := by
  induction within using Nat.strongRecOn with
  | _ within inductionHypothesis =>
    obtain ⟨kind, left, right, above, below, hangs⟩ := stands.exists_subtree least most
    cases hangs with
    | root => exact .refl
    | @link _ outer _ lower before =>
      have rest := inductionHypothesis outer before lower (Nat.lt_trans before most)
      exact .head ⟨_, below.of_node.1, rfl⟩ rest

/-- A link of a node leads to one that names this node as its parent. -/
theorem StandsIn.of_linksTo {kind : Kind} {left right : Shape}
    (stands : (node kind left right).StandsIn arena parent position) {upper : Node} {child : Nat}
    (here : arena.nodes[position]? = some upper) (links : upper.LinksTo child) :
    ∃ lower, arena.nodes[child]? = some lower ∧ lower.parent = some position := by
  obtain ⟨also, onLeft, onRight⟩ := stands.of_node
  obtain rfl := Option.some.inj (here.symm.trans also)
  have leads {below : Shape} {first : Nat} (stands : below.StandsIn arena (some position) first)
      (place : below.place first = some child) :
      ∃ lower, arena.nodes[child]? = some lower ∧ lower.parent = some position := by
    cases below with
    | absent => cases place
    | node kind left right =>
      cases place
      exact ⟨_, stands.of_node.1, rfl⟩
  obtain place | place := links
  · exact leads onLeft place
  · exact leads onRight place

/-- The links of a node do not lead to the same child. -/
theorem StandsIn.left_ne_right {kind : Kind} {left right : Shape}
    (stands : (node kind left right).StandsIn arena parent position) {upper : Node} {child : Nat}
    (here : arena.nodes[position]? = some upper) (onLeft : upper.left = some child) :
    upper.right ≠ some child := by
  obtain rfl := Option.some.inj (here.symm.trans stands.of_node.1)
  intro onRight
  cases left with
  | absent => cases onLeft
  | node kind' left' right' =>
    cases right with
    | absent => cases onRight
    | node kind'' left'' right'' =>
      have apart := (Option.some.inj onLeft).trans (Option.some.inj onRight).symm
      simp only [size] at apart
      omega

/-- Every node of an arena that is a tree is the root of a subtree, which hangs from its parent. -/
theorem StandsIn.exists_of_node (stands : shape.StandsIn arena none 0)
    (size : arena.nodes.size = shape.size) {within : Nat} {node : Node}
    (here : arena.nodes[within]? = some node) :
    (∃ kind left right, (Shape.node kind left right).StandsIn arena node.parent within) ∧
      arena.Hangs 0 none within node.parent := by
  obtain ⟨inside, -⟩ := Array.getElem?_eq_some_iff.mp here
  obtain ⟨kind, left, right, above, below, hangs⟩ :=
    stands.exists_subtree (Nat.zero_le within) (by omega)
  obtain rfl := Option.some.inj (here.symm.trans below.of_node.1)
  exact ⟨⟨kind, left, right, below⟩, hangs⟩

/-- All nodes of an arena that is a tree are at their places. -/
theorem StandsIn.places (stands : shape.StandsIn arena none 0)
    (size : arena.nodes.size = shape.size) {within : Nat} {node : Node}
    (here : arena.nodes[within]? = some node) : arena.Places within node := by
  obtain ⟨⟨kind, left, right, below⟩, hangs⟩ := stands.exists_of_node size here
  refine ⟨hangs.eq_none_iff, fun parent known => (hangs.of_eq_some known).1, ?_, ?_, ?_⟩
  · intro parent
    constructor
    · exact fun known => (hangs.of_eq_some known).2
    · rintro ⟨upper, above, links⟩
      obtain ⟨⟨_, _, _, outer⟩, -⟩ := stands.exists_of_node size above
      obtain ⟨lower, also, known⟩ := outer.of_linksTo above links
      obtain rfl := Option.some.inj (here.symm.trans also)
      exact known
  · intro child links
    obtain ⟨lower, also, -⟩ := below.of_linksTo here links
    exact (Array.getElem?_eq_some_iff.mp also).1
  · exact fun child onLeft => below.left_ne_right here onLeft

end Shape

namespace Growth

/-- The builder of a growth is arranged.

Proof: the nodes are a tree in preorder, and the tree at the cursor ends with the last node. -/
theorem arranged_builder (growth : Growth) : growth.builder.Arranged := by
  have stands : growth.whole.StandsIn growth.builder.arena none 0 := growth.whole.standsIn_layout
  have size : growth.builder.nodes.size = growth.whole.size := by
    rw [builder, List.size_toArray, Shape.length_layout]
  have root : growth.whole.place 0 = some 0 := Path.place_around _ _ _ _ 0
  refine ⟨fun position node here => stands.places size here, ?_, ?_⟩
  · have visits := stands.visits
    rwa [root, ← size, ← List.range_eq_range'] at visits
  · intro position cursor
    obtain ⟨path, kind, left, right⟩ := growth
    obtain ⟨path, rfl, rfl⟩ := Option.map_eq_some_iff.mp cursor
    have nodes := nodes_builder path kind left right
    have below : (Shape.node kind left right).StandsIn
        (builder ⟨some path, kind, left, right⟩).arena (Path.parent path) (Path.position path) := by
      refine ⟨Path.layout path, [], Path.length_layout path, ?_⟩
      rw [Builder.arena, nodes, List.append_nil]
    have count : (builder ⟨some path, kind, left, right⟩).nodes.size =
        Path.position path + (left.size + right.size + 1) := by
      rw [nodes, List.size_toArray, List.length_append, Path.length_layout, Shape.length_layout]
      rfl
    exact below.stepsUp _ (by omega) (by rw [Shape.size]; omega)

/-- An operand is put into the last node, and no other token puts one anywhere. -/
theorem operands_read {growth next : Growth} {token : Token}
    (read : growth.read token = some next) :
    next.builder.arena.operands = growth.builder.arena.operands ++ token.operand?.toList := by
  have change := read_eq_some read
  simp only [Builder.arena, Arena.operands]
  cases token with
  | opening =>
    obtain ⟨path, rfl, rfl⟩ := change
    simp [descend, nodes_builder, Path.layout, Frame.layout, Shape.layout, Kind.operand?,
      Token.operand?]
  | closing =>
    obtain ⟨path, kind, left, right, rfl, rfl⟩ := change
    simp [builder_ascend, Token.operand?]
  | operator op =>
    obtain ⟨path, left, rfl, rfl⟩ := change
    simp [descend, nodes_builder, Path.layout, Frame.layout, Shape.layout, Kind.operand?,
      Token.operand?]
  | number value =>
    obtain ⟨path, rfl, rfl⟩ := change
    simp [builder_ascend, descend, nodes_builder, Shape.layout, Kind.operand?, Token.operand?]
  | name text =>
    obtain ⟨path, rfl, rfl⟩ := change
    simp [builder_ascend, descend, nodes_builder, Shape.layout, Kind.operand?, Token.operand?]

/-- Reading tokens puts their operands into the arena, in their order and behind those that are
there. -/
theorem operands_foldlM {tokens : List Token} {growth last : Growth}
    (grown : tokens.foldlM read growth = some last) :
    last.builder.arena.operands =
      growth.builder.arena.operands ++ tokens.filterMap Token.operand? := by
  induction tokens generalizing growth with
  | nil =>
    obtain rfl := Option.some.inj grown
    simp
  | cons token rest inductionHypothesis =>
    obtain ⟨next, read, others⟩ := Option.bind_eq_some_iff.mp grown
    rw [inductionHypothesis others, operands_read read, List.append_assoc, List.filterMap_cons]
    cases token.operand? <;> rfl

end Growth

/-! ### What stays as it is -/

/-- A node keeps itself. -/
theorem Node.Keeps.refl (node : Node) : node.Keeps node :=
  ⟨fun _ => rfl, rfl, fun _ known => known, fun _ known => known⟩

/-- What is kept twice is kept. -/
theorem Node.Keeps.trans {node later last : Node} (first : node.Keeps later)
    (second : later.Keeps last) : node.Keeps last where
  kind settled := by
    have same := first.kind settled
    exact (second.kind (same ▸ settled)).trans same
  parent := second.parent.trans first.parent
  left child known := second.left child (first.left child known)
  right child known := second.right child (first.right child known)

/-- A node is blank exactly if it is a group without children. -/
theorem Node.isBlank_iff (node : Node) :
    node.isBlank = true ↔ node.kind.isGroup = true ∧ node.left = none ∧ node.right = none := by
  simp only [Node.isBlank, Bool.and_eq_true, Option.isNone_iff_eq_none, and_assoc]

namespace Builder

variable {builder later : Builder}

/-- A builder keeps its own nodes. -/
theorem Keeps.refl (builder : Builder) : builder.Keeps builder :=
  fun _ node here => ⟨node, here, .refl node⟩

/-- What is kept over two steps is kept over both. -/
theorem Keeps.trans {last : Builder} (first : builder.Keeps later) (second : later.Keeps last) :
    builder.Keeps last := by
  intro position node here
  obtain ⟨kept, stands, keeps⟩ := first position node here
  obtain ⟨final, stands', keeps'⟩ := second position kept stands
  exact ⟨final, stands', keeps.trans keeps'⟩

/-- A change of one node, if it leaves what was settled. -/
theorem Keeps.modify {position : Nat} {node : Node} {change : Node → Node}
    (here : builder.nodes[position]? = some node) (keeps : node.Keeps (change node))
    (cursor : Option Nat) : builder.Keeps ⟨builder.nodes.modify position change, cursor⟩ := by
  intro other upper stands
  by_cases same : position = other
  · subst same
    obtain rfl := Option.some.inj (here.symm.trans stands)
    exact ⟨change node, by rw [Array.getElem?_modify, if_pos rfl, here]; rfl, keeps⟩
  · exact ⟨upper, by rw [Array.getElem?_modify, if_neg same, stands], .refl upper⟩

/-- A node behind all others. -/
theorem Keeps.push (keeps : builder.Keeps later) (node : Node) (cursor : Option Nat) :
    builder.Keeps ⟨later.nodes.push node, cursor⟩ := by
  intro position upper here
  obtain ⟨kept, stands, same⟩ := keeps position upper here
  refine ⟨kept, ?_, same⟩
  obtain ⟨inside, -⟩ := Array.getElem?_eq_some_iff.mp stands
  rw [Array.getElem?_push_lt inside, ← Array.getElem?_eq_getElem inside]
  exact stands

/-- A blank node may become an operand. -/
theorem keeps_fill {position : Nat} {node : Node} {kind : Kind}
    (here : builder.nodes[position]? = some node)
    (filled : builder.fill position node kind = some later) : builder.Keeps later := by
  unfold fill at filled
  split at filled
  next blank =>
    obtain ⟨free, -, -⟩ := node.isBlank_iff.mp blank
    cases filled
    exact .modify here ⟨fun settled => absurd free (by simp [settled]), rfl,
      fun _ known => known, fun _ known => known⟩ _
  next => cases filled

/-- A token settles only what was not settled. -/
theorem keeps_read {token : Token} (read : builder.read token = some later) :
    builder.Keeps later := by
  obtain ⟨position, cursor, rest⟩ := Option.bind_eq_some_iff.mp read
  obtain ⟨node, here, change⟩ := Option.bind_eq_some_iff.mp rest
  cases token with
  | opening =>
    dsimp only at change
    split at change
    next blank =>
      obtain ⟨-, noLeft, -⟩ := node.isBlank_iff.mp blank
      cases change
      refine (Keeps.modify here ⟨fun _ => rfl, rfl, ?_, fun _ known => known⟩ none).push _ _
      intro child known
      rw [noLeft] at known
      cases known
    next => cases change
  | closing =>
    cases change
    exact .refl builder
  | operator op =>
    dsimp only at change
    split at change
    next free =>
      obtain ⟨group, noRight⟩ := Bool.and_eq_true_iff.mp free
      cases change
      refine (Keeps.modify here ⟨?_, rfl, fun _ known => known, ?_⟩ none).push _ _
      · intro settled
        rw [group] at settled
        cases settled
      · intro child known
        rw [known] at noRight
        cases noRight
    next => cases change
  | number value => exact keeps_fill here change
  | name text => exact keeps_fill here change

/-- So do all tokens that are still to come. -/
theorem keeps_foldlM {tokens : List Token} (grown : tokens.foldlM read builder = some later) :
    builder.Keeps later := by
  induction tokens generalizing builder with
  | nil =>
    obtain rfl := Option.some.inj grown
    exact .refl builder
  | cons token rest inductionHypothesis =>
    obtain ⟨next, read, others⟩ := Option.bind_eq_some_iff.mp grown
    exact (keeps_read read).trans (inductionHypothesis others)

end Builder

/-- At every moment of building, whatever the tokens are, the nodes that there are make a tree in
preorder: the first node alone has no parent, every other node is the left or the right child of its
parent and of nothing else, a parent stands before its children, and the nodes are numbered as they
are met from the root, those to the left before those to the right. The cursor, unless it is gone,
is on the way from the root to the last node. What comes later takes no node away and changes no
link, no parent and nothing that a node has been settled as. The operands in the nodes are those
among the tokens that have been read, each in a node of its own and in their order; and if the
tokens end here and make an arena, it has these nodes. -/
theorem arranged_of_read {tokens : List Token} {builder : Builder}
    (grown : tokens.foldlM Builder.read .start = some builder) :
    builder.Arranged ∧
      (∀ more later, List.foldlM Builder.read builder more = some later → builder.Keeps later) ∧
      builder.arena.operands = tokens.filterMap Token.operand? ∧
      ∀ arena, Arena.ofTokens? tokens = some arena → arena = builder.arena := by
  have follows : tokens.foldlM Builder.read .start =
      (tokens.foldlM Growth.read .start).map Growth.builder :=
    Growth.foldlM_builder tokens .start
  obtain ⟨growth, known, rfl⟩ := Option.map_eq_some_iff.mp (follows.symm.trans grown)
  refine ⟨growth.arranged_builder, fun more later => Builder.keeps_foldlM, ?_, ?_⟩
  · exact Growth.operands_foldlM known
  · intro arena built
    rw [Arena.ofTokens?, grown] at built
    simp only [Option.bind_eq_bind, Option.bind_some] at built
    split at built
    next => exact (Option.some.inj built).symm
    next => cases built

/-- A group that is left while nothing is in it. -/
def abandoned : List Token := [.opening, .closing, .operator .add, .name "x"]

/-- The nodes of the operator, of the blank group to the left of it, and of its right operand. -/
def abandonedBuilder : Builder where
  nodes := #[{ kind := .operator .add, left := some 1, right := some 2 }, { parent := some 0 },
    { kind := .name "x", parent := some 0 }]
  cursor := some 0

/-- A group that is still open when the tokens end: no arena is made of it, but what was built by
then is arranged. -/
theorem arranged_of_read_abandoned :
    abandoned.foldlM Builder.read .start = some abandonedBuilder ∧
      Arena.ofTokens? abandoned = none ∧ abandonedBuilder.Arranged ∧
      abandonedBuilder.arena.Visits (some 0) [0, 1, 2] ∧
      abandonedBuilder.arena.operands = [.name "x"] := by
  have grown : abandoned.foldlM Builder.read .start = some abandonedBuilder := by
    rfl
  obtain ⟨arranged, -, operands, -⟩ := arranged_of_read grown
  have refused : Arena.ofTokens? abandoned = none := by
    rw [Growth.ofTokens?_eq]
    rfl
  exact ⟨grown, refused, arranged, arranged.preorder, operands⟩

end ParamSweep.Formula
