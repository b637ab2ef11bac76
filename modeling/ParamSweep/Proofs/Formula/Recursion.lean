import ParamSweep.Proofs.Formula.Acceptance
import ParamSweep.Proofs.Formula.Walking

/-!
# The value of an arena by recursion from its root

What an arena says is a matter of its links: the value of a node follows from its kind and from
what its links lead to. `Arena.Means` is this recursion on the nodes themselves, from parents to
children, whatever the order in which they are stored. The walk from the last node to the first
comes to the same value, for every arena that the builder makes and not only for bracketed tokens.

If a name has no value there is no recursion to compare with, and it matters which names are looked
up first. The builder settles a node as a name only when it is the last node there is, so the names
stand in the arena in the order of the tokens; and the walk reports the first name that it meets
without a value, which is the last of the tokens.
-/

namespace ParamSweep.Formula

/-- The name that a token is, if it is one. -/
def Token.name? : Token → Option String
  | .name text => some text
  | _ => none

/-- The name in a node of some kind, if it holds one. -/
def Kind.name? : Kind → Option String
  | .name text => some text
  | _ => none

/-- The names in a term are those among its tokens. -/
theorem Term.names_eq (term : Term) :
    term.names = term.tokens.filterMap Token.name? := by
  induction term with
  | number value => rfl
  | name text => rfl
  | group inner inductionHypothesis =>
    simp [Term.names, Term.tokens, List.filterMap_cons, Token.name?, inductionHypothesis]
  | operation op left right onLeft onRight =>
    simp [Term.names, Term.tokens, List.filterMap_cons, Token.name?, onLeft, onRight]

namespace Arena

/-- The value of what a link of an arena leads to. A link that leads nowhere counts as zero. -/
inductive Means (arena : Arena) (valuation : Valuation) : Option Nat → Value → Prop
  | absent : Means arena valuation none (.float 0)
  | number {position : Nat} {node : Node} {value : Value}
      (stands : arena.nodes[position]? = some node) (kind : node.kind = .number value) :
      Means arena valuation (some position) value
  | name {position : Nat} {node : Node} {text : String} {value : Value}
      (stands : arena.nodes[position]? = some node) (kind : node.kind = .name text)
      (bound : valuation text = some value) : Means arena valuation (some position) value
  | group {position : Nat} {node : Node} {value : Value}
      (stands : arena.nodes[position]? = some node) (kind : node.kind = .group)
      (inside : Means arena valuation node.left value) : Means arena valuation (some position) value
  | operator {position : Nat} {node : Node} {op : Operator} {leftValue rightValue : Value}
      (stands : arena.nodes[position]? = some node) (kind : node.kind = .operator op)
      (onLeft : Means arena valuation node.left leftValue)
      (onRight : Means arena valuation node.right rightValue) :
      Means arena valuation (some position) (op.apply leftValue rightValue)

variable {arena : Arena} {valuation : Valuation}

/-- What the value of a node follows from. -/
theorem Means.of_node {position : Nat} {node : Node} {value : Value}
    (means : arena.Means valuation (some position) value)
    (stands : arena.nodes[position]? = some node) :
    match node.kind with
    | .number own => value = own
    | .name text => valuation text = some value
    | .group => arena.Means valuation node.left value
    | .operator op => ∃ leftValue rightValue, arena.Means valuation node.left leftValue ∧
        arena.Means valuation node.right rightValue ∧ value = op.apply leftValue rightValue := by
  cases means with
  | number also kind =>
    obtain rfl := Option.some.inj (stands.symm.trans also)
    rw [kind]
  | name also kind bound =>
    obtain rfl := Option.some.inj (stands.symm.trans also)
    rw [kind]
    exact bound
  | group also kind inside =>
    obtain rfl := Option.some.inj (stands.symm.trans also)
    rw [kind]
    exact inside
  | operator also kind onLeft onRight =>
    obtain rfl := Option.some.inj (stands.symm.trans also)
    rw [kind]
    exact ⟨_, _, onLeft, onRight, rfl⟩

/-- A link leads to one value at most. -/
theorem Means.unique {link : Option Nat} {value other : Value}
    (means : arena.Means valuation link value) (also : arena.Means valuation link other) :
    other = value := by
  induction means generalizing other with
  | absent =>
    cases also
    rfl
  | number stands kind =>
    have own := also.of_node stands
    rw [kind] at own
    exact own
  | name stands kind bound =>
    have own := also.of_node stands
    rw [kind] at own
    exact Option.some.inj (own.symm.trans bound)
  | group stands kind inside inductionHypothesis =>
    have own := also.of_node stands
    rw [kind] at own
    exact inductionHypothesis own
  | operator stands kind onLeft onRight leftHypothesis rightHypothesis =>
    have own := also.of_node stands
    rw [kind] at own
    obtain ⟨leftValue, rightValue, fromLeft, fromRight, rfl⟩ := own
    rw [leftHypothesis fromLeft, rightHypothesis fromRight]

end Arena

namespace Shape

/-- The names in a tree, in the order of its nodes. -/
def names : Shape → List String
  | absent => []
  | node kind left right => kind.name?.toList ++ (left.names ++ right.names)

/-- A tree whose names all have a value has one. -/
theorem exists_value {shape : Shape} {valuation : Valuation}
    (bound : ∀ name ∈ shape.names, valuation name ≠ none) :
    ∃ value, shape.value valuation = .ok value := by
  induction shape with
  | absent => exact ⟨_, rfl⟩
  | node kind left right onLeft onRight =>
    obtain ⟨own, others⟩ := List.forall_mem_append.mp bound
    obtain ⟨inLeft, inRight⟩ := List.forall_mem_append.mp others
    obtain ⟨leftValue, leftDone⟩ := onLeft inLeft
    obtain ⟨rightValue, rightDone⟩ := onRight inRight
    simp only [value, leftDone, rightDone, bind, Except.bind]
    cases kind with
    | group => exact ⟨_, rfl⟩
    | number value => exact ⟨_, rfl⟩
    | name text =>
      obtain ⟨value, known⟩ := Option.ne_none_iff_exists'.mp (own text (by simp [Kind.name?]))
      exact ⟨value, by simp [Kind.value, known]⟩
    | operator op => exact ⟨_, rfl⟩

/-- Of the names of a tree without a value the last one is reported. The children of a node are
looked at before the node and the right one first: this is the order of the names from their end. -/
theorem value_eq_unknownVariable {shape : Shape} {valuation : Valuation} {name : String}
    {before behind : List String} (names : shape.names = before ++ name :: behind)
    (unknown : valuation name = none) (known : ∀ later ∈ behind, valuation later ≠ none) :
    shape.value valuation = .error (.unknownVariable name) := by
  induction shape generalizing before behind with
  | absent => simp [Shape.names] at names
  | node kind left right onLeft onRight =>
    rw [Shape.names] at names
    obtain ⟨between, -, below⟩ | ⟨between, own, rfl⟩ := append_eq_append_cons names
    · obtain ⟨between, -, inRight⟩ | ⟨between, inLeft, rfl⟩ :=
        append_eq_append_cons below
      · rw [value, onRight inRight known]
        rfl
      · obtain ⟨knownLeft, knownRight⟩ := List.forall_mem_append.mp known
        obtain ⟨rightValue, rightDone⟩ := exists_value knownRight
        rw [value, rightDone, onLeft inLeft knownLeft]
        rfl
    · obtain ⟨-, knownBelow⟩ := List.forall_mem_append.mp known
      obtain ⟨knownLeft, knownRight⟩ := List.forall_mem_append.mp knownBelow
      obtain ⟨leftValue, leftDone⟩ := exists_value knownLeft
      obtain ⟨rightValue, rightDone⟩ := exists_value knownRight
      have kindName : kind = .name name := by
        cases kind with
        | name text =>
          obtain ⟨-, same⟩ | ⟨-, impossible⟩ := List.singleton_eq_append_iff.mp own
          · rw [(List.cons.inj same).1]
          · cases impossible
        | group => simp [Kind.name?] at own
        | number value => simp [Kind.name?] at own
        | operator op => simp [Kind.name?] at own
      rw [value, leftDone, rightDone, kindName]
      simp [bind, Except.bind, Kind.value, unknown]

/-- A tree has a value if both of its children have one and its kind makes one of them. -/
theorem value_node_eq_ok {kind : Kind} {left right : Shape} {valuation : Valuation} {value : Value}
    (valued : (node kind left right).value valuation = .ok value) :
    ∃ leftValue rightValue, left.value valuation = .ok leftValue ∧
      right.value valuation = .ok rightValue ∧
      kind.value valuation leftValue rightValue = .ok value := by
  rw [Shape.value] at valued
  cases rightDone : right.value valuation with
  | error fault =>
    rw [rightDone] at valued
    cases valued
  | ok rightValue =>
    cases leftDone : left.value valuation with
    | error fault =>
      rw [rightDone, leftDone] at valued
      cases valued
    | ok leftValue =>
      rw [rightDone, leftDone] at valued
      exact ⟨leftValue, rightValue, rfl, rfl, valued⟩

/-- The value of a tree is what the link to its first node means, wherever the tree stands in an
arena. -/
theorem StandsIn.means {shape : Shape} {valuation : Valuation} {arena : Arena}
    {parent : Option Nat} {position : Nat} (stands : shape.StandsIn arena parent position)
    {value : Value} (valued : shape.value valuation = .ok value) :
    arena.Means valuation (shape.place position) value := by
  induction shape generalizing parent position value with
  | absent =>
    obtain rfl := Except.ok.inj valued
    exact .absent
  | node kind left right leftHypothesis rightHypothesis =>
    obtain ⟨here, onLeft, onRight⟩ := stands.of_node
    obtain ⟨leftValue, rightValue, leftDone, rightDone, made⟩ := value_node_eq_ok valued
    have leftMeans := leftHypothesis onLeft leftDone
    have rightMeans := rightHypothesis onRight rightDone
    cases kind with
    | number own =>
      obtain rfl := Except.ok.inj made
      exact .number here rfl
    | name text =>
      cases bound : valuation text with
      | none => simp [Kind.value, bound] at made
      | some known =>
        obtain rfl : known = value := by simpa [Kind.value, bound] using made
        exact .name here rfl bound
    | group =>
      obtain rfl := Except.ok.inj made
      exact .group here rfl leftMeans
    | operator op =>
      obtain rfl := Except.ok.inj made
      exact .operator here rfl leftMeans rightMeans

end Shape

namespace Path

/-- The names on a path and to the left of it, in the order of the nodes. -/
def names : Path → List String
  | [] => []
  | .group :: path => names path
  | .operator _ left :: path => names path ++ left.names

/-- The names of a whole tree are those before the cursor and then those under it. -/
theorem names_around (path : Path) (shape : Shape) :
    (around path shape).names = names path ++ shape.names := by
  induction path generalizing shape with
  | nil => rfl
  | cons frame path inductionHypothesis =>
    cases frame with
    | group => simp [around, Frame.around, inductionHypothesis, names, Shape.names, Kind.name?]
    | operator op left =>
      simp [around, Frame.around, inductionHypothesis, names, Shape.names, Kind.name?]

/-- The first node of a whole tree is its root. -/
theorem place_around (path : Path) (kind : Kind) (left right : Shape) (position : Nat) :
    (around path (.node kind left right)).place position = some position := by
  induction path generalizing kind left right with
  | nil => rfl
  | cons frame path inductionHypothesis => cases frame <;> exact inductionHypothesis _ _ _

end Path

namespace Growth

/-- Going up leaves the whole tree as it is. -/
theorem whole_ascend (path : Path) (kind : Kind) (left right : Shape) :
    (ascend path kind left right).whole = Path.around path (.node kind left right) := by
  cases path with
  | nil => rfl
  | cons frame path => cases frame <;> rfl

/-- A token adds its name behind all others, if it is one: what is settled as a name is the last
node. -/
theorem names_read {growth next : Growth} {token : Token} (read : growth.read token = some next) :
    next.whole.names = growth.whole.names ++ token.name?.toList := by
  have change := read_eq_some read
  have whole (path : Path) (kind : Kind) (left right : Shape) :
      whole ⟨some path, kind, left, right⟩ = Path.around path (.node kind left right) := rfl
  cases token with
  | opening =>
    obtain ⟨path, rfl, rfl⟩ := change
    simp [descend, whole, Path.names_around, Path.names, Shape.names, Kind.name?, Token.name?]
  | closing =>
    obtain ⟨path, kind, left, right, rfl, rfl⟩ := change
    simp [whole_ascend, whole, Token.name?]
  | operator op =>
    obtain ⟨path, left, rfl, rfl⟩ := change
    simp [descend, whole, Path.names_around, Path.names, Shape.names, Kind.name?, Token.name?]
  | number value =>
    obtain ⟨path, rfl, rfl⟩ := change
    simp [whole_ascend, descend, whole, Path.names_around, Shape.names, Kind.name?, Token.name?]
  | name text =>
    obtain ⟨path, rfl, rfl⟩ := change
    simp [whole_ascend, descend, whole, Path.names_around, Shape.names, Kind.name?, Token.name?]

/-- Tokens add their names in their order, behind those that are there. -/
theorem names_foldlM {tokens : List Token} {growth last : Growth}
    (grown : tokens.foldlM read growth = some last) :
    last.whole.names = growth.whole.names ++ tokens.filterMap Token.name? := by
  induction tokens generalizing growth with
  | nil =>
    obtain rfl := Option.some.inj grown
    simp
  | cons token rest inductionHypothesis =>
    obtain ⟨next, read, others⟩ := Option.bind_eq_some_iff.mp grown
    rw [inductionHypothesis others, names_read read, List.append_assoc, List.filterMap_cons]
    cases token.name? <;> rfl

/-- What is built from tokens is a tree in preorder, and its names are those of the tokens in their
order. -/
theorem exists_shape {tokens : List Token} {arena : Arena}
    (built : Arena.ofTokens? tokens = some arena) :
    ∃ shape : Shape, arena = ⟨(shape.layout none 0).toArray⟩ ∧ shape.place 0 = some 0 ∧
      shape.names = tokens.filterMap Token.name? := by
  rw [ofTokens?_eq] at built
  obtain ⟨last, grown, checked⟩ := Option.bind_eq_some_iff.mp built
  split at checked
  next complete =>
    have root : last.whole.place 0 = some 0 := Path.place_around _ _ _ _ 0
    exact ⟨last.whole, (Option.some.inj checked).symm, root, names_foldlM grown⟩
  next => cases checked

end Growth

/-- Only a name has a name. -/
theorem Token.name?_eq_some {token : Token} {text : String} :
    token.name? = some text ↔ token = .name text := by
  cases token <;> simp [name?]

/-- The walk over the nodes of an arena comes to what the recursion from its root comes to. For
whatever tokens the arena was built, bracketed or not: if every name among them has a value, the
recursion from the root has a value, it has only one, and the walk comes to it. If some name has
none, the walk reports the last such name of the tokens, whatever the other operands are.

Proof: the arena is a tree written down in preorder, so the walk comes to the value of the tree,
which is the value of its root. Every name settles the last node that there is, so the names of the
tree in preorder are those of the tokens, and a tree looks its names up from their end. -/
theorem value_of_built {tokens : List Token} {arena : Arena}
    (built : Arena.ofTokens? tokens = some arena) (valuation : Valuation) :
    ((∀ text, .name text ∈ tokens → valuation text ≠ none) →
      ∃ value, arena.value valuation = .ok value ∧ arena.Means valuation (some 0) value ∧
        ∀ other, arena.Means valuation (some 0) other → other = value) ∧
    (∀ before text behind, tokens = before ++ .name text :: behind → valuation text = none →
      (∀ later, .name later ∈ behind → valuation later ≠ none) →
      arena.value valuation = .error (.unknownVariable text)) := by
  obtain ⟨shape, rfl, root, names⟩ := Growth.exists_shape built
  rw [Arena.value_layout]
  constructor
  · intro bound
    have known : ∀ name ∈ shape.names, valuation name ≠ none := by
      intro name member
      rw [names] at member
      obtain ⟨token, given, own⟩ := List.mem_filterMap.mp member
      exact bound name (Token.name?_eq_some.mp own ▸ given)
    obtain ⟨value, valued⟩ := Shape.exists_value known
    have means := shape.standsIn_layout.means valued
    rw [root] at means
    exact ⟨value, valued, means, fun other also => means.unique also⟩
  · intro before text behind parts unknown known
    have order : shape.names =
        before.filterMap Token.name? ++ text :: behind.filterMap Token.name? := by
      rw [names, parts, List.filterMap_append]
      rfl
    refine Shape.value_eq_unknownVariable order unknown fun later member => ?_
    obtain ⟨token, given, own⟩ := List.mem_filterMap.mp member
    exact known later (Token.name?_eq_some.mp own ▸ given)

/-- Brackets are left open, so bracketing refuses these tokens, but the builder takes them. -/
def openEnded : List Token :=
  [.opening, .name "a", .operator .div, .opening, .opening, .name "b"]

/-- The nodes of the operator, of its left operand, and of two groups around its right one. -/
def openEndedArena : Arena where
  nodes := #[{ kind := .operator .div, left := some 1, right := some 2 },
    { kind := .name "a", parent := some 0 }, { kind := .group, parent := some 0, left := some 3 },
    { kind := .group, parent := some 2, left := some 4 }, { kind := .name "b", parent := some 3 }]

/-- The walk over these nodes divides the one value by the other. If both are lacking, it reports
the last name. -/
theorem value_of_built_openEnded :
    bracketed? openEnded = none ∧ Arena.ofTokens? openEnded = some openEndedArena ∧
      (∀ first second : Value,
        openEndedArena.value (fun name => if name = "a" then some first else some second) =
          .ok (Operator.div.apply first second)) ∧
      (∀ second : Value,
        openEndedArena.value (fun name => if name = "a" then none else some second) =
          .error (.unknownVariable "a")) ∧
      openEndedArena.value (fun _ => none) = .error (.unknownVariable "b") := by
  have built : Arena.ofTokens? openEnded = some openEndedArena := by
    rw [Growth.ofTokens?_eq]
    rfl
  refine ⟨rfl, built, fun first second => ?_, fun second => ?_, ?_⟩
  · have bound : ∀ text, .name text ∈ openEnded →
        (if text = "a" then some first else some second) ≠ none := by
      intro text _
      split <;> nofun
    obtain ⟨value, valued, -, unique⟩ := (value_of_built built _).1 bound
    have root : openEndedArena.Means (fun name => if name = "a" then some first else some second)
        (some 0) (Operator.div.apply first second) :=
      .operator rfl rfl (.name rfl rfl rfl) (.group rfl rfl (.group rfl rfl (.name rfl rfl rfl)))
    rw [valued, unique _ root]
  · refine (value_of_built built _).2 [.opening] "a"
      [.operator .div, .opening, .opening, .name "b"] rfl rfl fun later member => ?_
    obtain rfl : later = "b" := by simpa using member
    nofun
  · exact (value_of_built built _).2 [.opening, .name "a", .operator .div, .opening, .opening] "b"
      [] rfl rfl nofun

end ParamSweep.Formula
