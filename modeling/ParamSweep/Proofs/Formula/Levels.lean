import ParamSweep.Proofs.Formula.Forest
import ParamSweep.Proofs.Formula.Supply

/-!
# A sweep goes level by level

A level is what stands side by side in a group, or outside of all. The sweep of a tier passes over
what a level holds from left to right and sweeps each group on its way. At an operator of its tier
the operand before it is the last thing that was passed: single, or a group, and perhaps one that
the sweep itself has just made. The operator becomes one group with its two operands, unless they
are all there is in a group of the text; so behind the sweep no operator of the tier is left in a
level but alone with its operands.

Where tiers that bind more strongly have been swept before, their operators are in groups of their
own already. The rank below which this holds is what a level is called loose and tidy for.
-/

namespace ParamSweep.Formula

namespace Forest

/-- No operator of a rank below `bound` stands outside of brackets. -/
def Loose (bound : Nat) : Forest → Prop
  | nil => True
  | operand _ _ rest => rest.Loose bound
  | operator op rest => bound ≤ op.rank ∧ rest.Loose bound
  | group _ rest => rest.Loose bound

/-- In every group an operator of a rank below `bound` stands alone with its operands. -/
def Tidy (bound : Nat) : Forest → Prop
  | nil => True
  | operand _ _ rest => rest.Tidy bound
  | operator _ rest => rest.Tidy bound
  | group inside rest =>
    (inside.Loose bound ∨ inside.IsOperation) ∧ inside.Tidy bound ∧ rest.Tidy bound

/-- Two levels side by side are loose if each of them is. -/
@[simp] theorem loose_append {bound : Nat} {forest other : Forest} :
    (forest.append other).Loose bound ↔ forest.Loose bound ∧ other.Loose bound := by
  induction forest with
  | nil => simp [append, Loose]
  | operand token single rest inductionHypothesis => exact inductionHypothesis
  | operator op rest inductionHypothesis => simp [append, Loose, inductionHypothesis, and_assoc]
  | group inside rest _ inductionHypothesis => exact inductionHypothesis

/-- Two levels side by side are tidy if each of them is. -/
@[simp] theorem tidy_append {bound : Nat} {forest other : Forest} :
    (forest.append other).Tidy bound ↔ forest.Tidy bound ∧ other.Tidy bound := by
  induction forest with
  | nil => simp [append, Tidy]
  | operand token single rest inductionHypothesis => exact inductionHypothesis
  | operator op rest inductionHypothesis => exact inductionHypothesis
  | group inside rest _ inductionHypothesis => simp [append, Tidy, inductionHypothesis, and_assoc]

/-- No operator has a rank below the lowest: every level is loose for it. -/
theorem loose_zero (forest : Forest) : forest.Loose 0 := by
  induction forest with
  | nil => trivial
  | operand token single rest inductionHypothesis => exact inductionHypothesis
  | operator op rest inductionHypothesis => exact ⟨Nat.zero_le _, inductionHypothesis⟩
  | group inside rest _ inductionHypothesis => exact inductionHypothesis

/-- And every level is tidy for it. -/
theorem tidy_zero (forest : Forest) : forest.Tidy 0 := by
  induction forest with
  | nil => trivial
  | operand token single rest inductionHypothesis => exact inductionHypothesis
  | operator op rest inductionHypothesis => exact inductionHypothesis
  | group inside rest insideHypothesis restHypothesis =>
    exact ⟨.inl inside.loose_zero, insideHypothesis, restHypothesis⟩

/-- A single operand has no operator outside of brackets. -/
theorem IsOperand.loose {bound : Nat} {forest : Forest} (isOperand : forest.IsOperand) :
    forest.Loose bound := by
  cases isOperand <;> trivial

end Forest

namespace Bracketing

variable {tier : Tier}

/-- At most one operand, operator or group. -/
inductive IsSingle : Forest → Prop
  | nil : IsSingle .nil
  | operator (op : Operator) : IsSingle (.operator op .nil)
  | operand {forest : Forest} (isOperand : forest.IsOperand) : IsSingle forest

/-- What was passed last does not end in an opening bracket. -/
theorem IsSingle.head_not_opening {last : Forest} (single : IsSingle last) (some : last ≠ .nil)
    (behind : List Token) :
    (last.tokens.reverse ++ behind).head?.any Token.isOpening = false := by
  cases single with
  | nil => exact absurd rfl some
  | operator op => rfl
  | operand isOperand =>
    cases isOperand with
    | single token single => cases token <;> first | rfl | cases single
    | group inside => simp [Forest.tokens, Token.isOpening]

/-- An operator finds an operand behind the walk only if one is the last that was passed. -/
theorem IsSingle.isOperand_of_head {last : Forest} {behind : List Token} (single : IsSingle last)
    (start : last = .nil → behind.head?.any Token.endsOperand = false)
    (ends : (last.tokens.reverse ++ behind).head?.any Token.endsOperand = true) :
    last.IsOperand := by
  cases single with
  | nil => cases (start rfl).symm.trans ends
  | operator op => cases ends
  | operand isOperand => exact isOperand

end Bracketing

namespace Forest

/-- A level whose first token starts an operand starts with one. -/
theorem exists_operand_of_head {forest : Forest}
    (starts : (forest.tokens ++ [Token.closing]).head?.any Token.startsOperand = true) :
    ∃ operand rest : Forest, operand.IsOperand ∧ forest = operand.append rest := by
  cases forest with
  | nil => cases starts
  | operand token single rest => exact ⟨operand token single nil, rest, .single token single, rfl⟩
  | operator op rest => cases starts
  | group inside rest => exact ⟨group inside nil, rest, .group inside, rfl⟩

/-- A level that a closing bracket follows at once has nothing in it. -/
theorem eq_nil_of_head_closing {forest : Forest} {rest : List Token}
    (closes : (forest.tokens ++ rest).head?.any Token.isClosing = true) : forest = nil := by
  cases forest with
  | nil => rfl
  | operand token single rest => cases token <;> nomatch closes
  | operator op rest => cases closes
  | group inside rest => cases closes

open Bracketing in
/-- Where an operand and what follows it are supplied, both are; and what follows needs only an
operand before it. -/
theorem IsOperand.supplied {tier : Tier} {operand : Forest} (isOperand : operand.IsOperand)
    {before : Option Token} {rest : List Token}
    (supplied : Supplied tier before (operand.tokens ++ rest)) :
    Supplied tier before operand.tokens ∧ Supplied tier (some .closing) rest := by
  cases isOperand with
  | single token single =>
    have ends : token.endsOperand = true := by rw [Token.endsOperand, single, Bool.true_or]
    have outside := inTier_of_endsOperand tier ends
    exact ⟨(supplied_cons outside).mpr trivial,
      ((supplied_cons outside).mp supplied).of_endsOperand rfl⟩
  | group inside =>
    have parts : (Forest.group inside .nil).tokens ++ rest =
        (.opening :: inside.tokens) ++ .closing :: rest := by simp [tokens]
    rw [parts] at supplied
    exact ⟨by simpa [tokens] using supplied.take rfl, supplied.of_append⟩

/-- The last token of an operand ends it. -/
theorem IsOperand.exists_head {operand : Forest} (isOperand : operand.IsOperand)
    (behind : List Token) :
    ∃ last, (operand.tokens.reverse ++ behind).head? = some last ∧ last.endsOperand = true := by
  cases isOperand with
  | single token single => exact ⟨token, rfl, by rw [Token.endsOperand, single, Bool.true_or]⟩
  | group inside => exact ⟨.closing, by simp [tokens], rfl⟩

end Forest

namespace Bracketing

/-- The sweep of a tier passes over an operand and sweeps what is in it. -/
def PassesOperand (tier : Tier) (operand : Forest) : Prop :=
  ∀ (before : Option Token) (behind rest : List Token),
    operand.Tidy (rankOf tier) → Supplied tier before operand.tokens →
      ∃ swept : Forest, swept.IsOperand ∧ swept.Tidy (rankOf tier + 1) ∧
        sweep tier behind (operand.tokens ++ rest) =
          sweep tier (swept.tokens.reverse ++ behind) rest

/-- What the sweep of a tier leaves: no operator of the tier or a stronger one outside of brackets,
unless it stands with its operands between two that were there. -/
structure Swept (tier : Tier) (behind : List Token) (swept : Forest) : Prop where
  own : swept.Loose (rankOf tier + 1) ∨
    behind.head?.any Token.isOpening = true ∧ swept.IsOperation
  tidy : swept.Tidy (rankOf tier + 1)

/-- A walk in a level: `last` is the nearest thing that it has passed, and `forest` is what it still
has ahead in the level. The sweep of the tier has been over the former and not yet over the latter,
whose operators have their operands. The rest of the text lies behind and ahead of the two. -/
structure Stands (tier : Tier) (behind rest : List Token) (last forest : Forest) : Prop where
  single : IsSingle last
  start : last = .nil → behind.head?.any Token.endsOperand = false
  lastLoose : last.Loose (rankOf tier + 1)
  lastTidy : last.Tidy (rankOf tier + 1)
  loose : forest.Loose (rankOf tier)
  tidy : forest.Tidy (rankOf tier)
  supplied : Supplied tier (last.tokens.reverse ++ behind).head? (forest.tokens ++ [.closing])
  closes : behind.head?.any Token.isOpening = true → rest.head?.any Token.isClosing = true

/-- The sweep of a tier comes from there to the end of the level. -/
def Finishes (tier : Tier) (behind rest : List Token) (last forest : Forest) : Prop :=
  ∃ swept : Forest, Swept tier behind swept ∧
    sweep tier (last.tokens.reverse ++ behind) (forest.tokens ++ rest) =
      sweep tier (swept.tokens.reverse ++ behind) rest

namespace Stands

variable {behind rest : List Token} {last next forest others : Forest}

/-- After the next thing has been passed, nothing but this is what was passed last. -/
theorem step (stands : Stands tier behind rest last forest) (single : IsSingle next)
    (some : next ≠ .nil) (nextLoose : next.Loose (rankOf tier + 1))
    (nextTidy : next.Tidy (rankOf tier + 1)) (loose : others.Loose (rankOf tier))
    (tidy : others.Tidy (rankOf tier))
    (supplied : Supplied tier (next.tokens.reverse ++ (last.tokens.reverse ++ behind)).head?
      (others.tokens ++ [.closing])) :
    Stands tier (last.tokens.reverse ++ behind) rest next others where
  single := single
  start := fun none => absurd none some
  lastLoose := nextLoose
  lastTidy := nextTidy
  loose := loose
  tidy := tidy
  supplied := supplied
  closes opens := by
    by_cases first : last = .nil
    · subst first
      exact stands.closes opens
    · rw [stands.single.head_not_opening first behind] at opens
      cases opens

/-- Whatever was passed before the next thing stays as it is, so the level ends as the rest of it
does. -/
theorem finishes_of_step (stands : Stands tier behind rest last forest)
    (steps : sweep tier (last.tokens.reverse ++ behind) (forest.tokens ++ rest) =
      sweep tier (next.tokens.reverse ++ (last.tokens.reverse ++ behind)) (others.tokens ++ rest))
    (finishes : Finishes tier (last.tokens.reverse ++ behind) rest next others) :
    Finishes tier behind rest last forest := by
  by_cases first : last = .nil
  · subst first
    obtain ⟨swept, done, same⟩ := finishes
    exact ⟨swept, done, steps.trans same⟩
  · obtain ⟨swept, ⟨sweptLoose | ⟨opens, -⟩, sweptTidy⟩, same⟩ := finishes
    · refine ⟨last.append swept, ⟨.inl ?_, ?_⟩, ?_⟩
      · exact Forest.loose_append.mpr ⟨stands.lastLoose, sweptLoose⟩
      · exact Forest.tidy_append.mpr ⟨stands.lastTidy, sweptTidy⟩
      · simpa using steps.trans same
    · rw [stands.single.head_not_opening first behind] at opens
      cases opens

/-- A single operand is passed. -/
theorem operand {token : Token} {own : token.isOperand = true}
    (stands : Stands tier behind rest last (.operand token own others)) :
    Stands tier (last.tokens.reverse ++ behind) rest (.operand token own .nil) others := by
  have outside : inTier tier token = false :=
    inTier_of_endsOperand tier (by rw [Token.endsOperand, own, Bool.true_or])
  exact stands.step (.operand (.single token own)) (fun none => by cases none) trivial trivial
    stands.loose stands.tidy ((supplied_cons outside).mp stands.supplied)

/-- An operator of another tier is passed. It is a weaker one, as the stronger ones are in groups of
their own. -/
theorem weaker {op : Operator} (outside : inTier tier (.operator op) = false)
    (stands : Stands tier behind rest last (.operator op others)) :
    Stands tier (last.tokens.reverse ++ behind) rest (.operator op .nil) others := by
  have weaker : rankOf tier + 1 ≤ op.rank := by
    have bound : rankOf tier ≤ op.rank := stands.loose.1
    have other : op.rank ≠ rankOf tier := by simpa [inTier_operator] using outside
    omega
  exact stands.step (.operator op) (fun none => by cases none) ⟨weaker, trivial⟩ trivial
    stands.loose.2 stands.tidy ((supplied_cons outside).mp stands.supplied)

/-- A group is swept and passed. -/
theorem group {inside : Forest} (stands : Stands tier behind rest last (.group inside others))
    (passes : PassesOperand tier (.group inside .nil)) :
    ∃ next : Forest, Stands tier (last.tokens.reverse ++ behind) rest next others ∧
      sweep tier (last.tokens.reverse ++ behind) ((Forest.group inside others).tokens ++ rest) =
        sweep tier (next.tokens.reverse ++ (last.tokens.reverse ++ behind))
          (others.tokens ++ rest) := by
  have suppliedBoth : Supplied tier (last.tokens.reverse ++ behind).head?
      ((Forest.group inside .nil).tokens ++ (others.tokens ++ [.closing])) := by
    simpa [Forest.tokens] using stands.supplied
  obtain ⟨suppliedInside, suppliedOthers⟩ := (Forest.IsOperand.group inside).supplied suppliedBoth
  obtain ⟨insideLevel, insideTidy, othersTidy⟩ := stands.tidy
  obtain ⟨next, isOperand, nextTidy, passed⟩ := passes _ (last.tokens.reverse ++ behind)
    (others.tokens ++ rest) ⟨insideLevel, insideTidy, trivial⟩ suppliedInside
  obtain ⟨nearest, head, ends⟩ := isOperand.exists_head (last.tokens.reverse ++ behind)
  refine ⟨next, ?_, by simpa [Forest.tokens] using passed⟩
  exact stands.step (.operand isOperand) (by rintro rfl; cases isOperand) isOperand.loose nextTidy
    stands.loose othersTidy (head ▸ suppliedOthers.of_endsOperand ends)

/-- An operator of the tier has an operand on either side, and needs no more than them. -/
theorem exists_operands {op : Operator} (inside : inTier tier (.operator op) = true)
    (stands : Stands tier behind rest last (.operator op forest)) :
    ∃ right others : Forest, last.IsOperand ∧ right.IsOperand ∧ forest = right.append others ∧
      Supplied tier (some (.operator op)) right.tokens ∧
      Supplied tier (some .closing) (others.tokens ++ [.closing]) := by
  obtain ⟨needs, suppliedForest⟩ := stands.supplied
  obtain ⟨ends, starts⟩ := needs inside
  obtain ⟨right, others, onRight, rfl⟩ := Forest.exists_operand_of_head starts
  have suppliedBoth : Supplied tier (some (.operator op))
      (right.tokens ++ (others.tokens ++ [.closing])) := by simpa using suppliedForest
  exact ⟨right, others, stands.single.isOperand_of_head stands.start ends, onRight, rfl,
    onRight.supplied suppliedBoth⟩

/-- An operator that stands with its operands between brackets is all there is in the level. It is
passed, and its right operand is swept. -/
theorem finishes_enclosed {op : Operator} (inside : inTier tier (.operator op) = true)
    (stands : Stands tier behind rest last (.operator op (next.append others)))
    (onLeft : last.IsOperand) (onRight : next.IsOperand)
    (supplied : Supplied tier (some (.operator op)) next.tokens)
    (passes : PassesOperand tier next)
    (between : enclosed behind (others.tokens ++ rest) = true) :
    Finishes tier behind rest last (.operator op (next.append others)) := by
  obtain ⟨opens, closed⟩ := Bool.and_eq_true_iff.mp between
  obtain rfl := Forest.eq_nil_of_head_closing closed
  obtain ⟨rightTidy, -⟩ := Forest.tidy_append.mp stands.tidy
  obtain ⟨right, isOperand, sweptTidy, passed⟩ := passes _
    (.operator op :: (last.tokens.reverse ++ behind)) rest rightTidy supplied
  have swept := sweep_operator inside onLeft.operand_tokens onRight.operand_tokens behind
    ((Forest.nil).tokens ++ rest)
  rw [if_pos between] at swept
  refine ⟨last.append (.operator op right), ⟨.inr ⟨opens, .mk op onLeft isOperand⟩, ?_⟩, ?_⟩
  · exact Forest.tidy_append.mpr ⟨stands.lastTidy, sweptTidy⟩
  · have walked := swept.trans passed
    simpa [Forest.tokens, Forest.append] using walked

/-- Any other operator of the tier is put into a group with its operands, and the right one is
swept. The walk has then passed the group, before which it stands as it stood before the left
operand. -/
theorem insert {op : Operator} (inside : inTier tier (.operator op) = true)
    (stands : Stands tier behind rest last (.operator op (next.append others)))
    (onLeft : last.IsOperand) (onRight : next.IsOperand)
    (supplied : Supplied tier (some (.operator op)) next.tokens)
    (suppliedOthers : Supplied tier (some .closing) (others.tokens ++ [.closing]))
    (passes : PassesOperand tier next)
    (apart : enclosed behind (others.tokens ++ rest) = false) :
    ∃ made : Forest, Stands tier behind rest made others ∧
      sweep tier (last.tokens.reverse ++ behind)
          ((Forest.operator op (next.append others)).tokens ++ rest) =
        sweep tier (made.tokens.reverse ++ behind) (others.tokens ++ rest) := by
  obtain ⟨rightTidy, othersTidy⟩ := Forest.tidy_append.mp stands.tidy
  obtain ⟨-, othersLoose⟩ := Forest.loose_append.mp stands.loose.2
  obtain ⟨right, isOperand, sweptTidy, passed⟩ := passes _
    (.operator op :: (last.tokens.reverse ++ .opening :: behind))
    (.closing :: (others.tokens ++ rest)) rightTidy supplied
  have operation : (last.append (.operator op right)).IsOperation := .mk op onLeft isOperand
  refine ⟨.group (last.append (.operator op right)) .nil, ?_, ?_⟩
  · exact {
      single := .operand (.group _)
      start := fun none => by cases none
      lastLoose := trivial
      lastTidy := ⟨.inr operation, Forest.tidy_append.mpr ⟨stands.lastTidy, sweptTidy⟩, trivial⟩
      loose := othersLoose
      tidy := othersTidy
      supplied := by simpa [Forest.tokens] using suppliedOthers
      closes := stands.closes }
  · have swept := sweep_operator inside onLeft.operand_tokens onRight.operand_tokens behind
      (others.tokens ++ rest)
    rw [apart, if_neg Bool.false_ne_true, passed, sweep_closing] at swept
    simpa [Forest.tokens] using swept

/-- The sweep of a tier comes to the end of a level, if it passes over every operand in it.

Proof: by induction on the size of what is ahead, one case for each thing that can be next. Only an
operator of the tier changes the level. If it is not yet enclosed, then the walk goes on from the
group that is made of it, with less ahead than before. -/
theorem finishes (stands : Stands tier behind rest last forest)
    (passes : ∀ operand : Forest, operand.IsOperand → operand.size ≤ forest.size →
      PassesOperand tier operand) :
    Finishes tier behind rest last forest := by
  induction length : forest.size using Nat.strong_induction_on
    generalizing forest last behind with
  | _ size inductionHypothesis =>
    subst length
    have shorter {behind : List Token} {next others : Forest} (smaller : others.size < forest.size)
        (stands : Stands tier behind rest next others) : Finishes tier behind rest next others :=
      inductionHypothesis _ smaller stands
        (fun operand isOperand small => passes operand isOperand (small.trans smaller.le)) rfl
    cases forest with
    | nil => exact ⟨last, ⟨.inl stands.lastLoose, stands.lastTidy⟩, rfl⟩
    | operand token own others =>
      have outside : inTier tier token = false :=
        inTier_of_endsOperand tier (by rw [Token.endsOperand, own, Bool.true_or])
      exact stands.finishes_of_step (sweep_pass outside _ _)
        (shorter (Nat.lt_succ_self _) stands.operand)
    | group inside others =>
      obtain ⟨next, further, passed⟩ := stands.group
        (passes _ (.group inside) (by simp only [Forest.size]; omega))
      exact stands.finishes_of_step passed (shorter (by rw [Forest.size]; omega) further)
    | operator op forest =>
      cases inside : inTier tier (.operator op) with
      | false =>
        exact stands.finishes_of_step (sweep_pass inside _ _)
          (shorter (Nat.lt_succ_self _) (stands.weaker inside))
      | true =>
        obtain ⟨right, others, onLeft, onRight, rfl, supplied, suppliedOthers⟩ :=
          stands.exists_operands inside
        have passesRight := passes right onRight
          (by simp only [Forest.size, Forest.size_append]; omega)
        cases between : enclosed behind (others.tokens ++ rest) with
        | true => exact stands.finishes_enclosed inside onLeft onRight supplied passesRight between
        | false =>
          obtain ⟨made, further, walked⟩ :=
            stands.insert inside onLeft onRight supplied suppliedOthers passesRight between
          obtain ⟨swept, done, same⟩ :=
            shorter (by simp only [Forest.size, Forest.size_append]; omega) further
          exact ⟨swept, done, walked.trans same⟩

end Stands

/-- Where nothing of a level has been passed, the sweep of a tier comes to its end. -/
theorem finishes_level {forest : Forest} {behind rest : List Token}
    (passes : ∀ operand : Forest, operand.IsOperand → operand.size ≤ forest.size →
      PassesOperand tier operand)
    (start : behind.head?.any Token.endsOperand = false) (loose : forest.Loose (rankOf tier))
    (tidy : forest.Tidy (rankOf tier))
    (supplied : Supplied tier behind.head? (forest.tokens ++ [.closing]))
    (closes : behind.head?.any Token.isOpening = true → rest.head?.any Token.isClosing = true) :
    Finishes tier behind rest .nil forest :=
  Stands.finishes ⟨.nil, fun _ => start, trivial, trivial, loose, tidy, supplied, closes⟩ passes

/-- An operator that stands with its operands between brackets is passed over, whatever its tier. -/
theorem sweep_enclosed (tier : Tier) {left right : List Token}
    (onLeft : Operand Token.isOpening Token.isClosing left)
    (onRight : Operand Token.isOpening Token.isClosing right) (op : Operator)
    (behind rest : List Token) :
    sweep tier (left.reverse ++ .opening :: behind) (.operator op :: right ++ .closing :: rest) =
      sweep tier (.operator op :: (left.reverse ++ .opening :: behind))
        (right ++ .closing :: rest) := by
  cases inside : inTier tier (.operator op) with
  | false => exact sweep_pass inside _ _
  | true =>
    have stands : enclosed (.opening :: behind) (.closing :: rest) = true := rfl
    rw [sweep_operator inside onLeft onRight, if_pos stands]

/-- The sweep of a tier passes over two operands between brackets with an operator between them. -/
theorem exists_swept_operation {forest : Forest} (isOperation : forest.IsOperation)
    (passes : ∀ operand : Forest, operand.IsOperand → operand.size ≤ forest.size →
      PassesOperand tier operand)
    {behind rest : List Token} (tidy : forest.Tidy (rankOf tier))
    (supplied : Supplied tier (some .opening) (forest.tokens ++ [.closing])) :
    ∃ swept : Forest, swept.IsOperation ∧ swept.Tidy (rankOf tier + 1) ∧
      sweep tier (.opening :: behind) (forest.tokens ++ .closing :: rest) =
        sweep tier (swept.tokens.reverse ++ .opening :: behind) (.closing :: rest) := by
  obtain @⟨left, right, op, onLeft, onRight⟩ := isOperation
  obtain ⟨leftTidy, rightTidy⟩ := Forest.tidy_append.mp tidy
  have parts : (left.append (.operator op right)).tokens ++ [.closing] =
      left.tokens ++ (.operator op :: (right.tokens ++ [.closing])) := by simp [Forest.tokens]
  rw [parts] at supplied
  obtain ⟨suppliedLeft, -, suppliedRest⟩ := onLeft.supplied supplied
  obtain ⟨suppliedRight, -⟩ := onRight.supplied suppliedRest
  -- The walk goes over the left operand, passes the operator, and goes over the right one.
  obtain ⟨newLeft, isLeft, newLeftTidy, passedLeft⟩ := passes left onLeft
    (by simp only [Forest.size, Forest.size_append]; omega) _ (.opening :: behind)
    (.operator op :: right.tokens ++ .closing :: rest) leftTidy suppliedLeft
  obtain ⟨newRight, isRight, newRightTidy, passedRight⟩ := passes right onRight
    (by simp only [Forest.size, Forest.size_append]; omega) _
    (.operator op :: (newLeft.tokens.reverse ++ .opening :: behind)) (.closing :: rest) rightTidy
    suppliedRight
  have between := sweep_enclosed tier isLeft.operand_tokens onRight.operand_tokens op behind rest
  refine ⟨newLeft.append (.operator op newRight), .mk op isLeft isRight,
    Forest.tidy_append.mpr ⟨newLeftTidy, newRightTidy⟩, ?_⟩
  have walked := (passedLeft.trans between).trans passedRight
  simpa [Forest.tokens] using walked

/-- The sweep of a tier passes over every operand that is supplied. -/
theorem passesOperand {operand : Forest} (isOperand : operand.IsOperand) :
    PassesOperand tier operand := by
  induction length : operand.size using Nat.strong_induction_on generalizing operand with
  | _ size inductionHypothesis =>
    subst length
    intro before behind rest tidy supplied
    cases isOperand with
    | single token own =>
      have outside : inTier tier token = false :=
        inTier_of_endsOperand tier (by rw [Token.endsOperand, own, Bool.true_or])
      exact ⟨_, .single token own, trivial, sweep_pass outside behind rest⟩
    | group inside =>
      obtain ⟨level, insideTidy, -⟩ := tidy
      have insideSupplied : Supplied tier (some .opening) (inside.tokens ++ [.closing]) := by
        simpa [Forest.tokens] using supplied.2
      have passes : ∀ operand : Forest, operand.IsOperand → operand.size ≤ inside.size →
          PassesOperand tier operand := by
        intro operand isOperand small
        refine inductionHypothesis operand.size ?_ isOperand rfl
        simp only [Forest.size]
        omega
      have finishes : Finishes tier (.opening :: behind) (.closing :: rest) .nil inside := by
        obtain loose | isOperation := level
        · exact finishes_level passes rfl loose insideTidy insideSupplied (fun _ => rfl)
        · obtain ⟨swept, operation, sweptTidy, same⟩ :=
            exists_swept_operation isOperation passes insideTidy insideSupplied
          exact ⟨swept, ⟨.inr ⟨rfl, operation⟩, sweptTidy⟩, same⟩
      obtain ⟨swept, ⟨own, sweptTidy⟩, same⟩ := finishes
      refine ⟨.group swept .nil, .group swept, ⟨own.imp id And.right, sweptTidy, trivial⟩, ?_⟩
      have opened := sweep_opening tier behind (inside.tokens ++ .closing :: rest)
      have closed := sweep_closing tier (swept.tokens.reverse ++ .opening :: behind) rest
      simpa [Forest.tokens] using (opened.trans same).trans closed

/-- The sweep of a tier over a forest whose operators are supplied comes to its end. -/
theorem exists_bracketTier (tier : Tier) {forest : Forest} (loose : forest.Loose (rankOf tier))
    (tidy : forest.Tidy (rankOf tier)) (supplied : Supplied tier none forest.tokens) :
    ∃ swept : Forest, swept.Loose (rankOf tier + 1) ∧ swept.Tidy (rankOf tier + 1) ∧
      bracketTier forest.tokens tier = some swept.tokens := by
  have passes : ∀ operand : Forest, operand.IsOperand → operand.size ≤ forest.size →
      PassesOperand tier operand := fun operand isOperand _ => passesOperand isOperand
  have finishes : Finishes tier [] [] .nil forest :=
    finishes_level passes rfl loose tidy (supplied_concat_closing.mpr supplied) nofun
  obtain ⟨swept, ⟨own, sweptTidy⟩, same⟩ := finishes
  obtain sweptLoose | ⟨opens, -⟩ := own
  · refine ⟨swept, sweptLoose, sweptTidy, ?_⟩
    simpa [bracketTier, sweep, Forest.tokens] using same
  · cases opens

end Bracketing

end ParamSweep.Formula
