import ParamSweep.Proofs.Formula.Supply
import ParamSweep.Proofs.Formula.Forest

/-!
# Brackets and their partners

A group is measured by counting brackets from its first one on. What the count has gone through
when it comes to an end is nested: every bracket between the first and the last has its partner
there. And in nested tokens no bracket is without a partner, so the count does come to an end. Both
hold in either direction, since nested tokens are nested when they are read backwards.

An operator and its two operands are nested as well. So brackets around the three leave balanced
tokens balanced, and make no others so.
-/

namespace ParamSweep.Formula

namespace Bracketing

variable {opens closes : Token → Bool}

/-- The count of open groups goes through nested tokens to a bracket that closes the innermost
group.

Proof: by induction on the number of tokens. Behind a group that is opened on the way the count is
at the same point again. -/
theorem exists_nested_of_groupLength {opened length : Nat} {tokens : List Token}
    (measured : groupLength opens closes (opened + 1) tokens = some length) :
    ∃ inside last rest, tokens = inside ++ last :: rest ∧ Nested opens closes inside ∧
      opens last = false ∧ closes last = true := by
  induction size : tokens.length using Nat.strong_induction_on
    generalizing tokens opened length with
  | _ size inductionHypothesis =>
    subst size
    cases tokens with
    | nil => cases measured
    | cons token tokens =>
      rw [groupLength.eq_def] at measured
      dsimp only at measured
      split at measured
      next opening =>
        obtain ⟨count, counted, -⟩ := Option.map_eq_some_iff.mp measured
        obtain ⟨inner, close, behind, rfl, nested, opensNot, closing⟩ :=
          inductionHypothesis _ (Nat.lt_succ_self _) counted rfl
        rw [groupLength_nested nested] at counted
        simp only [groupLength, opensNot, closing, Bool.false_eq_true, if_true, if_false,
          Option.map_map] at counted
        obtain ⟨further, goesOn, -⟩ := Option.map_eq_some_iff.mp counted
        obtain ⟨inside, last, rest, rfl, others, lastOpensNot, lastCloses⟩ :=
          inductionHypothesis behind.length (by simp; omega) goesOn rfl
        refine ⟨(token :: inner ++ [close]) ++ inside, last, rest, by simp, ?_, lastOpensNot,
          lastCloses⟩
        exact .append (.group opening closing opensNot nested) others
      next opensNot =>
        have opensNot : opens token = false := by simpa using opensNot
        split at measured
        next closing => exact ⟨[], token, tokens, rfl, .nil, opensNot, closing⟩
        next closesNot =>
          have closesNot : closes token = false := by simpa using closesNot
          obtain ⟨count, counted, -⟩ := Option.map_eq_some_iff.mp measured
          obtain ⟨inside, last, rest, rfl, nested, lastOpensNot, lastCloses⟩ :=
            inductionHypothesis _ (Nat.lt_succ_self _) counted rfl
          exact ⟨token :: inside, last, rest, rfl, .append (.plain opensNot closesNot) nested,
            lastOpensNot, lastCloses⟩

/-- What is measured as an operand is one. -/
theorem exists_operand_of_operandLength {length : Nat} {tokens : List Token}
    (measured : operandLength opens closes tokens = some length) :
    ∃ operand rest, tokens = operand ++ rest ∧ Operand opens closes operand ∧
      length = operand.length := by
  have measuredAs (operand rest : List Token) (parts : tokens = operand ++ rest)
      (isOperand : Operand opens closes operand) :
      ∃ operand rest, tokens = operand ++ rest ∧ Operand opens closes operand ∧
        length = operand.length := by
    refine ⟨operand, rest, parts, isOperand, ?_⟩
    rw [parts, operandLength_operand isOperand] at measured
    exact (Option.some.inj measured).symm
  cases tokens with
  | nil => cases measured
  | cons token tokens =>
    rw [operandLength] at measured
    split at measured
    next single => exact measuredAs [token] tokens rfl (.single single)
    next operandNot =>
      split at measured
      next opening =>
        simp only [groupLength, opening, if_true] at measured
        obtain ⟨count, counted, -⟩ := Option.map_eq_some_iff.mp measured
        obtain ⟨inside, last, rest, rfl, nested, opensNot, closing⟩ :=
          exists_nested_of_groupLength counted
        exact measuredAs (token :: inside ++ [last]) rest (by simp)
          (.group (by simpa using operandNot) opening closing opensNot nested)
      next => cases measured

/-- In nested tokens a bracket that opens has a partner.

Proof: by induction on how the tokens are nested. The bracket is the first of a group, or stands in
a smaller part. -/
theorem exists_partner_of_nested {tokens front behind : List Token} {first : Token}
    (nested : Nested opens closes tokens) (parts : tokens = front ++ first :: behind)
    (opening : opens first = true) :
    ∃ inside last rest, behind = inside ++ last :: rest ∧ Nested opens closes inside ∧
      opens last = false ∧ closes last = true := by
  induction nested generalizing front behind with
  | nil => simp at parts
  | @plain token opensNot closesNot =>
    cases front with
    | nil =>
      obtain ⟨rfl, -⟩ := List.cons.inj parts
      rw [opensNot] at opening
      cases opening
    | cons other front => simp at parts
  | @group start last inside _ closing opensNot inner inductionHypothesis =>
    cases front with
    | nil =>
      obtain ⟨rfl, rfl⟩ := List.cons.inj parts
      exact ⟨inside, last, [], rfl, inner, opensNot, closing⟩
    | cons other front =>
      obtain ⟨-, others⟩ := List.cons.inj parts
      obtain ⟨between, -, atLast⟩ | ⟨between, within, rfl⟩ := append_eq_append_cons others
      · cases between with
        | nil =>
          obtain ⟨rfl, -⟩ := List.cons.inj atLast
          rw [opensNot] at opening
          cases opening
        | cons next between => simp at atLast
      · obtain ⟨segment, close, rest, rfl, found⟩ := inductionHypothesis within
        exact ⟨segment, close, rest ++ [last], by simp, found⟩
  | @append left right _ _ leftHypothesis rightHypothesis =>
    obtain ⟨between, -, onRight⟩ | ⟨between, onLeft, rfl⟩ := append_eq_append_cons parts
    · exact rightHypothesis onRight
    · obtain ⟨segment, close, rest, rfl, found⟩ := leftHypothesis onLeft
      exact ⟨segment, close, rest ++ right, by simp, found⟩

/-- In nested tokens a group is measured from every bracket that opens one. -/
theorem exists_groupLength_of_nested {front behind : List Token} {first : Token}
    (nested : Nested opens closes (front ++ first :: behind)) (opening : opens first = true) :
    ∃ length, groupLength opens closes 0 (first :: behind) = some length := by
  obtain ⟨inside, last, rest, rfl, inner, opensNot, closing⟩ :=
    exists_partner_of_nested nested rfl opening
  have measured := groupLength_nested inner 0 (last :: rest)
  simp only [groupLength, opening, if_true, measured, opensNot, closing, Bool.false_eq_true,
    if_false]
  exact ⟨_, rfl⟩

/-- The brackets of balanced tokens are nested. -/
theorem nested_of_balanced {tokens : List Token} (balanced : Balanced tokens) :
    Nested Token.isOpening Token.isClosing tokens := by
  obtain ⟨forest, rfl⟩ := Forest.exists_tokens_eq balanced
  exact forest.nested_tokens

/-- A group that has no end stands in tokens that are not balanced. -/
theorem not_balanced_of_endless {first : Token} (opening : first.isOpening = true)
    {back : List Token}
    (endless : groupLength Token.isOpening Token.isClosing 0 (first :: back) = none)
    (front : List Token) : ¬ Balanced (front ++ first :: back) := by
  intro balanced
  obtain ⟨length, measured⟩ := exists_groupLength_of_nested (nested_of_balanced balanced) opening
  rw [endless] at measured
  cases measured

/-- And so does a group that has no beginning. -/
theorem not_balanced_of_beginless {last : Token} (closing : last.isClosing = true)
    {others : List Token}
    (beginless : groupLength Token.isClosing Token.isOpening 0 (last :: others) = none)
    (ahead : List Token) : ¬ Balanced ((last :: others).reverse ++ ahead) := by
  intro balanced
  have backwards := (nested_of_balanced balanced).reverse
  rw [List.reverse_append, List.reverse_reverse] at backwards
  obtain ⟨length, measured⟩ := exists_groupLength_of_nested backwards closing
  rw [beginless] at measured
  cases measured

/-- The brackets of an operand are nested. -/
theorem Operand.nested {operand : List Token}
    (isOperand : Operand Token.isOpening Token.isClosing operand) :
    Nested Token.isOpening Token.isClosing operand := by
  cases isOperand with
  | @single token single =>
    cases token <;> first | exact .plain rfl rfl | cases single
  | group _ opening closing opensNot inside => exact .group opening closing opensNot inside

/-- No operand is empty. -/
theorem Operand.length_pos {operand : List Token} (isOperand : Operand opens closes operand) :
    0 < operand.length := by
  cases isOperand <;> simp

/-- The count of open groups goes on from one part of the tokens to the next. -/
theorem openAfter_append (opened : Nat) (front back : List Token) :
    openAfter opened (front ++ back) = (openAfter opened front).bind (openAfter · back) := by
  induction front generalizing opened with
  | nil => rfl
  | cons token front inductionHypothesis =>
    have plain (opensNot : token.isOpening = false) (closesNot : token.isClosing = false) :
        openAfter opened (token :: front ++ back) =
          (openAfter opened (token :: front)).bind (openAfter · back) := by
      rw [List.cons_append, openAfter_plain opensNot closesNot, openAfter_plain opensNot closesNot,
        inductionHypothesis]
    cases token with
    | opening => exact inductionHypothesis (opened + 1)
    | closing =>
      cases opened with
      | zero => rfl
      | succ opened => exact inductionHypothesis opened
    | _ => exact plain rfl rfl

/-- Brackets around nested tokens leave the others as balanced as they were. -/
theorem balanced_around {segment : List Token}
    (nested : Nested Token.isOpening Token.isClosing segment) (front back : List Token) :
    Balanced (front ++ .opening :: (segment ++ .closing :: back)) ↔
      Balanced (front ++ (segment ++ back)) := by
  have onwards (opened : Nat) : openAfter opened (.opening :: (segment ++ .closing :: back)) =
      openAfter opened (segment ++ back) := by
    rw [openAfter, openAfter_nested nested, openAfter_nested nested, openAfter]
  rw [← balanced_iff, ← balanced_iff, balanced, balanced, openAfter_append, openAfter_append]
  simp only [onwards]

end Bracketing

end ParamSweep.Formula
