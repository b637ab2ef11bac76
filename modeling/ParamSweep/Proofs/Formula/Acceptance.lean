import ParamSweep.Proofs.Formula.Growth
import ParamSweep.Proofs.Formula.Insertion

/-!
# What the builder accepts

The builder looks at the node under its cursor and not at the token before. The two tell the
same as long as no blank node is left behind: the node is blank exactly if an operand is
awaited. A blank node that is left behind stays blank for good, and the arena is refused at the
end; an operator that comes to a blank node has no operand in front of it, which the sweeps
have excluded.

So whatever the builder accepts after the sweeps fits together, and then so do the tokens
before them. Where the cursor stands at the end does not matter.
-/

namespace ParamSweep.Formula

namespace Path

/-- Whether everything that hangs to the left of a path is complete. -/
def isSettled : Path → Bool
  | [] => true
  | .group :: path => isSettled path
  | .operator _ left :: path => left.isComplete && isSettled path

/-- If a whole tree is complete, so is what hangs beside the path to one of its nodes, and the
tree under that node. -/
theorem isSettled_of_around {path : Path} {kind : Kind} {left right : Shape}
    (complete : (around path (.node kind left right)).isComplete = true) :
    isSettled path = true ∧ (Shape.node kind left right).isComplete = true := by
  induction path generalizing kind left right with
  | nil => exact ⟨rfl, complete⟩
  | cons frame path inductionHypothesis =>
    cases frame with
    | group =>
      obtain ⟨settled, inside⟩ := inductionHypothesis complete
      simp only [Shape.isComplete, Bool.and_eq_true] at inside ⊢
      exact ⟨settled, inside.2.1⟩
    | operator op before =>
      obtain ⟨settled, inside⟩ := inductionHypothesis complete
      simp only [Shape.isComplete, isSettled, Bool.and_eq_true] at inside ⊢
      exact ⟨⟨inside.2.1, settled⟩, inside.2.2⟩

end Path

namespace Growth

/-- Whether every node that has been left is complete. -/
def isSettled (growth : Growth) : Bool :=
  match growth.path with
  | none => growth.shape.isComplete
  | some path => path.isSettled && (growth.left.isComplete && growth.right.isComplete)

/-- Where the whole tree is complete, so is every node that has been left. -/
theorem isSettled_of_complete {growth : Growth} (complete : growth.whole.isComplete = true) :
    growth.isSettled = true := by
  obtain ⟨path, kind, left, right⟩ := growth
  cases path with
  | none => exact complete
  | some path =>
    obtain ⟨settled, inside⟩ := Path.isSettled_of_around complete
    simp only [Shape.isComplete, Bool.and_eq_true] at inside
    have here : path.isSettled = true := settled
    simp only [isSettled, here, inside.2.1, inside.2.2, Bool.and_self]

/-- Going up leaves a node behind, which has to be complete. -/
theorem isSettled_ascend {path : Path} {kind : Kind} {left right : Shape} :
    (ascend path kind left right).isSettled = true ↔
      path.isSettled = true ∧ (Shape.node kind left right).isComplete = true := by
  cases path with
  | nil => simp [ascend, isSettled, shape, Path.isSettled]
  | cons frame path =>
    cases frame <;> simp [ascend, isSettled, Path.isSettled, Shape.isComplete, and_comm, and_assoc]

/-- Only a group without children is settled, and the cursor goes up from it. -/
theorem settle_eq_some {path : Path} {filled kind : Kind} {left right : Shape} {next : Growth}
    (settled : settle path filled kind left right = some next) :
    kind = .group ∧ left = .absent ∧ right = .absent ∧
      next = ascend path filled .absent .absent := by
  unfold settle at settled
  split at settled
  · exact ⟨rfl, rfl, rfl, (Option.some.inj settled).symm⟩
  · cases settled

/-- What a token asks of the node at the cursor, and what becomes of it. -/
theorem read_eq_some {growth next : Growth} {token : Token} (read : growth.read token = some next) :
    match token with
    | .opening => ∃ path, growth = descend path ∧ next = descend (.group :: path)
    | .number value => ∃ path, growth = descend path ∧
        next = ascend path (.number value) .absent .absent
    | .name text => ∃ path, growth = descend path ∧ next = ascend path (.name text) .absent .absent
    | .operator op => ∃ path left, growth = ⟨some path, .group, left, .absent⟩ ∧
        next = descend (.operator op left :: path)
    | .closing => ∃ path kind left right, growth = ⟨some path, kind, left, right⟩ ∧
        next = ascend path kind left right := by
  obtain ⟨path, kind, left, right⟩ := growth
  cases path with
  | none => cases read
  | some path =>
    simp only [Growth.read, Option.bind_some] at read
    split at read
    · cases read
      exact ⟨path, rfl, rfl⟩
    · cases read
      exact ⟨path, _, _, _, rfl, rfl⟩
    · cases read
      exact ⟨path, _, rfl, rfl⟩
    · obtain ⟨rfl, rfl, rfl, rfl⟩ := settle_eq_some read
      exact ⟨path, rfl, rfl⟩
    · obtain ⟨rfl, rfl, rfl, rfl⟩ := settle_eq_some read
      exact ⟨path, rfl, rfl⟩
    · cases read

/-- What has been left stays as it is: if it is complete later, it is complete before. -/
theorem isSettled_of_read {growth next : Growth} {token : Token}
    (read : growth.read token = some next) (settled : next.isSettled = true) :
    growth.isSettled = true := by
  have change := read_eq_some read
  cases token with
  | opening =>
    obtain ⟨path, rfl, rfl⟩ := change
    exact settled
  | closing =>
    obtain ⟨path, kind, left, right, rfl, rfl⟩ := change
    obtain ⟨outside, inside⟩ := isSettled_ascend.mp settled
    simp only [Shape.isComplete, Bool.and_eq_true] at inside
    simp only [isSettled, outside, inside.2.1, inside.2.2, Bool.and_self]
  | operator op =>
    obtain ⟨path, left, rfl, rfl⟩ := change
    simp only [isSettled, descend, Path.isSettled, Shape.isComplete, Bool.and_true,
      Bool.and_eq_true] at settled ⊢
    exact settled.symm
  | number value =>
    obtain ⟨path, rfl, rfl⟩ := change
    have outside := (isSettled_ascend.mp settled).1
    simp only [isSettled, descend, outside, Shape.isComplete, Bool.and_self]
  | name text =>
    obtain ⟨path, rfl, rfl⟩ := change
    have outside := (isSettled_ascend.mp settled).1
    simp only [isSettled, descend, outside, Shape.isComplete, Bool.and_self]

/-- A node that is left incomplete stays so: what is settled after some tokens was settled before
them. -/
theorem isSettled_of_foldlM {tokens : List Token} {growth last : Growth}
    (grown : tokens.foldlM read growth = some last) (settled : last.isSettled = true) :
    growth.isSettled = true := by
  induction tokens generalizing growth with
  | nil =>
    obtain rfl := Option.some.inj grown
    exact settled
  | cons token rest inductionHypothesis =>
    obtain ⟨next, read, others⟩ := Option.bind_eq_some_iff.mp grown
    exact isSettled_of_read read (inductionHypothesis others)

/-- Whether the cursor is on a blank node. -/
def IsBlank (growth : Growth) : Prop := ∃ path, growth = descend path

/-- A new node is blank. -/
theorem isBlank_descend (path : Path) : (descend path).IsBlank := ⟨path, rfl⟩

/-- The node to which the cursor goes up has a child. -/
theorem not_isBlank_ascend {path : Path} {kind : Kind} {left right : Shape} :
    ¬(ascend path kind left right).IsBlank := by
  rintro ⟨other, same⟩
  cases path with
  | nil => cases same
  | cons frame path => cases frame <;> cases same

/-- A tree whose cursor is on a blank node is not complete. -/
theorem not_isBlank_of_complete {growth : Growth} (complete : growth.whole.isComplete = true) :
    ¬growth.IsBlank := by
  rintro ⟨path, rfl⟩
  have inside := (Path.isSettled_of_around complete).2
  cases inside

/-- Tokens from which a complete tree grows fit together, if no operator follows a token behind
which an operand is awaited.

Proof: by induction on the tokens. The cursor is on a blank node exactly if the token before
awaits an operand. What a token asks of the node then says that it fits to the token before:
only a closing bracket asks nothing, but it must not leave a blank node behind. -/
theorem fitting_of_complete {tokens : List Token} {growth last : Growth} {before : Token}
    (grown : tokens.foldlM read growth = some last) (complete : last.whole.isComplete = true)
    (flanked : ∀ tier, List.IsChain (Bracketing.Flanks tier) (before :: tokens))
    (awaits : before.awaitsOperand = true ↔ growth.IsBlank) :
    List.IsChain Token.Fits (before :: tokens ++ [.closing]) := by
  induction tokens generalizing growth before with
  | nil =>
    obtain rfl := Option.some.inj grown
    -- If an operand were still awaited, a blank node would be left at the end.
    have ended : before.awaitsOperand = false :=
      Bool.eq_false_iff.mpr (mt awaits.mp (not_isBlank_of_complete complete))
    exact List.isChain_pair.mpr ended
  | cons token rest inductionHypothesis =>
    obtain ⟨next, read, others⟩ := Option.bind_eq_some_iff.mp grown
    have settled : next.isSettled = true :=
      isSettled_of_foldlM others (isSettled_of_complete complete)
    have change := read_eq_some read
    have further (fits : before.Fits token) (turn : token.awaitsOperand = true ↔ next.IsBlank) :
        List.IsChain Token.Fits (before :: token :: rest ++ [.closing]) :=
      .cons_cons fits (inductionHypothesis others
        (fun tier => (List.isChain_cons_cons.mp (flanked tier)).2) turn)
    cases token with
    | opening =>
      obtain ⟨path, rfl, rfl⟩ := change
      exact further (awaits.mpr (isBlank_descend path))
        (iff_of_true rfl (isBlank_descend _))
    | closing =>
      obtain ⟨path, kind, left, right, rfl, rfl⟩ := change
      -- A blank node that is left stays blank, and the tree would not be complete.
      have fits : before.Fits .closing := by
        refine Bool.eq_false_iff.mpr fun awaited => ?_
        obtain ⟨other, same⟩ := awaits.mp awaited
        cases same
        cases (isSettled_ascend.mp settled).2
      exact further fits (iff_of_false Bool.false_ne_true not_isBlank_ascend)
    | operator op =>
      obtain ⟨path, left, rfl, rfl⟩ := change
      have own : Bracketing.inTier op.tier (.operator op) = true := by simp [Bracketing.inTier]
      have fits : before.Fits (.operator op) := (List.isChain_cons_cons.mp (flanked op.tier)).1 own
      exact further fits (iff_of_true rfl (isBlank_descend _))
    | number value =>
      obtain ⟨path, rfl, rfl⟩ := change
      exact further (awaits.mpr (isBlank_descend path))
        (iff_of_false Bool.false_ne_true not_isBlank_ascend)
    | name text =>
      obtain ⟨path, rfl, rfl⟩ := change
      exact further (awaits.mpr (isBlank_descend path))
        (iff_of_false Bool.false_ne_true not_isBlank_ascend)

end Growth

/-- Tokens from which an arena is made are well formed.

Proof: the bracketed tokens fit because a complete tree grows from them, and what the sweeps
have put in cannot hide that the tokens before them do not. -/
theorem wellFormed_of_accepted {tokens bracketed : List Token} {arena : Arena}
    (swept : bracketed? tokens = some bracketed)
    (built : Arena.ofTokens? bracketed = some arena) : WellFormed tokens := by
  obtain ⟨balanced, insertions, flanked⟩ := bracketed?_spec swept
  rw [Growth.ofTokens?_eq] at built
  obtain ⟨last, grown, checked⟩ := Option.bind_eq_some_iff.mp built
  have complete : last.whole.isComplete = true := by
    by_contra incomplete
    rw [if_neg incomplete] at checked
    cases checked
  have fitting : List.IsChain Token.Fits (.opening :: bracketed ++ [.closing]) :=
    Growth.fitting_of_complete grown complete flanked
      (iff_of_true rfl (Growth.isBlank_descend []))
  exact ⟨balanced, insertions.fitting [.opening] [.closing] fitting⟩

end ParamSweep.Formula
