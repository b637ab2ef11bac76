import ParamSweep.Proofs.Formula.Meaning

/-!
# Writing an arena back into tokens

The arena keeps no brackets: an opening one has become a left child, whether of a group or of an
operator, and a closing one has left no trace. `Arena.Writes` follows the links from parents to
children and puts the brackets back, around every group and around every operation.

Nothing is lost on the way. Bracketed tokens that the builder accepts are the tokens of a finished
tree, and the builder puts the nodes of that tree one after the other in preorder. So following the
links from the first node meets the whole tree, and the tokens are written as they were read.
-/

namespace ParamSweep.Formula

namespace Arena

/-- The tokens below a link of an arena: an operand is its token, a group stands in brackets, and so
does an operation. A link that leads nowhere cannot be written. -/
inductive Writes (arena : Arena) : Option Nat → List Token → Prop
  | number {position : Nat} {node : Node} {value : Value}
      (stands : arena.nodes[position]? = some node) (kind : node.kind = .number value) :
      Writes arena (some position) [.number value]
  | name {position : Nat} {node : Node} {text : String}
      (stands : arena.nodes[position]? = some node) (kind : node.kind = .name text) :
      Writes arena (some position) [.name text]
  | group {position : Nat} {node : Node} {inner : List Token}
      (stands : arena.nodes[position]? = some node) (kind : node.kind = .group)
      (inside : Writes arena node.left inner) :
      Writes arena (some position) (.opening :: inner ++ [.closing])
  | operator {position : Nat} {node : Node} {op : Operator} {left right : List Token}
      (stands : arena.nodes[position]? = some node) (kind : node.kind = .operator op)
      (onLeft : Writes arena node.left left) (onRight : Writes arena node.right right) :
      Writes arena (some position) (.opening :: left ++ .operator op :: right ++ [.closing])

variable {arena : Arena}

/-- What is written for a node. -/
theorem Writes.of_node {position : Nat} {node : Node} {written : List Token}
    (writes : arena.Writes (some position) written)
    (stands : arena.nodes[position]? = some node) :
    match node.kind with
    | .number value => written = [.number value]
    | .name text => written = [.name text]
    | .group => ∃ inner, arena.Writes node.left inner ∧ written = .opening :: inner ++ [.closing]
    | .operator op => ∃ left right, arena.Writes node.left left ∧ arena.Writes node.right right ∧
        written = .opening :: left ++ .operator op :: right ++ [.closing] := by
  cases writes with
  | number also kind =>
    obtain rfl := Option.some.inj (stands.symm.trans also)
    rw [kind]
  | name also kind =>
    obtain rfl := Option.some.inj (stands.symm.trans also)
    rw [kind]
  | group also kind inside =>
    obtain rfl := Option.some.inj (stands.symm.trans also)
    rw [kind]
    exact ⟨_, inside, rfl⟩
  | operator also kind onLeft onRight =>
    obtain rfl := Option.some.inj (stands.symm.trans also)
    rw [kind]
    exact ⟨_, _, onLeft, onRight, rfl⟩

/-- A link is written in one way at most. -/
theorem Writes.unique {link : Option Nat} {written other : List Token}
    (writes : arena.Writes link written) (also : arena.Writes link other) : other = written := by
  induction writes generalizing other with
  | number stands kind =>
    have own := also.of_node stands
    rwa [kind] at own
  | name stands kind =>
    have own := also.of_node stands
    rwa [kind] at own
  | group stands kind inside inductionHypothesis =>
    have own := also.of_node stands
    rw [kind] at own
    obtain ⟨inner, within, rfl⟩ := own
    rw [inductionHypothesis within]
  | operator stands kind onLeft onRight leftHypothesis rightHypothesis =>
    have own := also.of_node stands
    rw [kind] at own
    obtain ⟨left, right, fromLeft, fromRight, rfl⟩ := own
    rw [leftHypothesis fromLeft, rightHypothesis fromRight]

end Arena

/-- The link to the first node of a finished tree writes the tokens of the tree, wherever the tree
stands in an arena. -/
theorem Shape.Finished.writes {shape : Shape} (finished : shape.Finished) {arena : Arena}
    {parent : Option Nat} {position : Nat} (stands : shape.StandsIn arena parent position) :
    arena.Writes (shape.place position) shape.written := by
  induction finished generalizing parent position with
  | number value => exact .number stands.of_node.1 rfl
  | name text => exact .name stands.of_node.1 rfl
  | group inside inductionHypothesis =>
    obtain ⟨here, below, -⟩ := stands.of_node
    exact .group here rfl (inductionHypothesis below)
  | operation op onLeft onRight leftHypothesis rightHypothesis =>
    obtain ⟨here, below, behind⟩ := stands.of_node
    exact .operator here rfl (leftHypothesis below) (rightHypothesis behind)

/-- The arena of a finished tree in preorder writes the tokens of that tree and nothing else. -/
theorem Shape.Finished.writes_iff {shape : Shape} (finished : shape.Finished)
    (written : List Token) :
    (⟨(shape.layout none 0).toArray⟩ : Arena).Writes (some 0) written ↔
      written = shape.written := by
  have root : shape.place 0 = some 0 := by cases finished <;> rfl
  have writes := root ▸ finished.writes shape.standsIn_layout
  exact ⟨writes.unique, fun same => same ▸ writes⟩

/-- What the builder accepts after bracketing are the tokens of a finished tree. -/
theorem exists_finished {tokens bracketed : List Token} {arena : Arena}
    (swept : bracketed? tokens = some bracketed)
    (built : Arena.ofTokens? bracketed = some arena) :
    ∃ shape : Shape, shape.Finished ∧ shape.written = bracketed ∧
      arena = ⟨(shape.layout none 0).toArray⟩ := by
  obtain ⟨term, layered, rfl⟩ := (wellFormed_iff tokens).mp (wellFormed_of_accepted swept built)
  have spelled : term.shape.written = bracketed := by
    rw [term.written_shape]
    exact Option.some.inj ((bracketed?_tokens layered).symm.trans swept)
  have laid := Growth.ofTokens?_written term.finished_shape
  rw [spelled, built] at laid
  exact ⟨term.shape, term.finished_shape, spelled, Option.some.inj laid⟩

/-- Building loses nothing. An arena built from bracketed tokens is written from its root as exactly
these tokens. And every finite tree whose operands have no children, whose groups have one and whose
operators have two is what the builder makes of its written form, with its nodes in preorder. -/
theorem built_iff_written :
    (∀ tokens bracketed arena, bracketed? tokens = some bracketed →
      Arena.ofTokens? bracketed = some arena →
      ∀ written, arena.Writes (some 0) written ↔ written = bracketed) ∧
    ∀ shape : Shape, shape.Finished →
      ∃ arena, Arena.ofTokens? shape.written = some arena ∧
        arena.nodes.toList = shape.layout none 0 ∧
        ∀ written, arena.Writes (some 0) written ↔ written = shape.written := by
  constructor
  · intro tokens bracketed arena swept built
    obtain ⟨shape, finished, rfl, rfl⟩ := exists_finished swept built
    exact finished.writes_iff
  · intro shape finished
    exact ⟨_, Growth.ofTokens?_written finished, rfl, finished.writes_iff⟩

/-- Of the two pairs of brackets around the product one is its own and the other is a group. -/
def groupedProduct : List Token :=
  [.name "a", .operator .add, .opening, .opening, .name "b", .operator .mul, .name "c", .closing,
    .closing]

/-- The nodes of the sum, of its left operand, of the group and of the product in it. -/
def groupedProductShape : Shape :=
  .node (.operator .add) (.node (.name "a") .absent .absent)
    (.node .group (.node (.operator .mul) (.node (.name "b") .absent .absent)
      (.node (.name "c") .absent .absent)) .absent)

/-- A product whose brackets are already there gets none but those of the whole, and is written back
as it was. -/
theorem built_iff_written_grouped :
    bracketed? groupedProduct = some (.opening :: groupedProduct ++ [.closing]) ∧
      Arena.ofTokens? (.opening :: groupedProduct ++ [.closing]) =
        some ⟨(groupedProductShape.layout none 0).toArray⟩ ∧
      ∀ written, (⟨(groupedProductShape.layout none 0).toArray⟩ : Arena).Writes (some 0) written ↔
        written = .opening :: groupedProduct ++ [.closing] := by
  have finished : groupedProductShape.Finished :=
    .operation .add (.name "a") (.group (.operation .mul (.name "b") (.name "c")))
  have layered : (Term.operation .add (.name "a") (.group (.group
      (.operation .mul (.name "b") (.name "c"))))).Layered 3 := by
    simp [Term.Layered, Operator.rank]
  have swept := bracketed?_tokens layered
  obtain ⟨arena, built, laid, -⟩ := built_iff_written.2 groupedProductShape finished
  have own : arena = ⟨(groupedProductShape.layout none 0).toArray⟩ :=
    congrArg Arena.mk (Array.toList_inj.mp (by rw [laid]))
  rw [own] at built
  exact ⟨swept, built, built_iff_written.1 groupedProduct _ _ swept built⟩

end ParamSweep.Formula
