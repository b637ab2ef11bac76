import ParamSweep.Proofs.Formula.Levels

/-!
# Every operator between brackets of its own

After three sweeps every operator stands directly between two brackets with its operands, and there
is nothing left to do for a fourth. This is stated on the tokens as they stand in a row, for every
list of tokens: where operands or groups stand side by side without an operator, brackets are put in
around the operators all the same.
-/

namespace ParamSweep.Formula

/-- A single operand, or a group from one bracket to its partner. -/
inductive IsWhole : List Token → Prop
  | single {token : Token} (operand : token.isOperand = true) : IsWhole [token]
  | group {inside : List Token} (balanced : Balanced inside) :
      IsWhole (.opening :: inside ++ [.closing])

/-- An operator between these tokens stands directly between two brackets with its operands. -/
def Encloses (before behind : List Token) : Prop :=
  ∃ outer left right rest, before = outer ++ .opening :: left ∧
    behind = right ++ .closing :: rest ∧ IsWhole left ∧ IsWhole right

/-- Every operator of these tokens stands directly between two brackets with its operands. -/
def Enclosed (tokens : List Token) : Prop :=
  ∀ before op behind, tokens = before ++ .operator op :: behind → Encloses before behind

open Bracketing in
/-- What is whole is an operand. -/
theorem IsWhole.operand {tokens : List Token} (whole : IsWhole tokens) :
    Operand Token.isOpening Token.isClosing tokens := by
  cases whole with
  | single operand => exact .single operand
  | group balanced =>
    obtain ⟨inside, rfl⟩ := Forest.exists_tokens_eq balanced
    exact .group rfl rfl rfl rfl inside.nested_tokens

/-- What stands further out is no matter for an operator that is enclosed. -/
theorem Encloses.extend {before behind : List Token} (encloses : Encloses before behind)
    (front back : List Token) : Encloses (front ++ before) (behind ++ back) := by
  obtain ⟨outer, left, right, rest, rfl, rfl, onLeft, onRight⟩ := encloses
  exact ⟨front ++ outer, left, right, rest ++ back, by simp, by simp, onLeft, onRight⟩

namespace Forest

/-- A single operand is whole. -/
theorem IsOperand.isWhole {forest : Forest} (isOperand : forest.IsOperand) :
    IsWhole forest.tokens := by
  cases isOperand with
  | single token single => exact .single single
  | group inside => exact .group inside.balanced_tokens

/-- A level with an operator in it is not empty. -/
theorem append_operator_ne_nil (front back : Forest) (op : Operator) :
    front.append (operator op back) ≠ nil := by
  cases front <;> nofun

/-- An operand has no operator outside of brackets. -/
theorem not_isOperand_append (front back : Forest) (op : Operator) :
    ¬ (front.append (operator op back)).IsOperand := by
  intro isOperand
  generalize whole : front.append (operator op back) = other at isOperand
  cases isOperand with
  | single token single =>
    cases front with
    | operand _ _ rest => exact append_operator_ne_nil rest back op (Forest.operand.inj whole).2
    | _ => cases whole
  | group inside =>
    cases front with
    | group _ rest => exact append_operator_ne_nil rest back op (Forest.group.inj whole).2
    | _ => cases whole

/-- An operation has its one operator between its operands. -/
theorem IsOperation.of_append {front back : Forest} {op : Operator}
    (isOperation : (front.append (operator op back)).IsOperation) :
    front.IsOperand ∧ back.IsOperand := by
  generalize whole : front.append (operator op back) = other at isOperation
  obtain @⟨left, right, own, onLeft, onRight⟩ := isOperation
  -- What stands behind the first operand begins with the operator.
  have split (rest : Forest) (same : rest.append (operator op back) = operator own right) :
      rest = nil ∧ back = right := by
    cases rest with
    | nil => exact ⟨rfl, (Forest.operator.inj same).2⟩
    | operator _ rest =>
      have inRight := (Forest.operator.inj same).2
      exact absurd (inRight ▸ onRight) (not_isOperand_append rest back op)
    | _ => cases same
  cases onLeft with
  | single token single =>
    cases front with
    | operand token' single' rest =>
      obtain ⟨rfl, same⟩ := Forest.operand.inj whole
      obtain ⟨rfl, rfl⟩ := split rest same
      exact ⟨.single _ _, onRight⟩
    | _ => cases whole
  | group inside =>
    cases front with
    | group _ rest =>
      obtain ⟨rfl, same⟩ := Forest.group.inj whole
      obtain ⟨rfl, rfl⟩ := split rest same
      exact ⟨.group _, onRight⟩
    | _ => cases whole

/-- Where every group is tidy, an operator of the tokens is enclosed or stands outside of brackets.

Proof: by induction on the forest. Outside of brackets in a group there is no operator but the one
of an operation, and that one stands between the brackets of the group. -/
theorem encloses_or_outside {forest : Forest} (tidy : forest.Tidy 3) {before behind : List Token}
    {op : Operator} (parts : forest.tokens = before ++ .operator op :: behind) :
    Encloses before behind ∨ ∃ front back : Forest, forest = front.append (operator op back) ∧
      front.tokens = before ∧ back.tokens = behind := by
  induction forest generalizing before behind with
  | nil => simp [tokens] at parts
  | operand token single rest inductionHypothesis =>
    cases before with
    | nil =>
      obtain ⟨rfl, -⟩ := List.cons.inj parts
      cases single
    | cons first before =>
      obtain ⟨rfl, others⟩ := List.cons.inj parts
      obtain encloses | ⟨front, back, rfl, rfl, rfl⟩ := inductionHypothesis tidy others
      · exact .inl (by simpa using encloses.extend [token] [])
      · exact .inr ⟨operand token single front, back, rfl, rfl, rfl⟩
  | operator own rest inductionHypothesis =>
    cases before with
    | nil =>
      obtain ⟨same, rfl⟩ := List.cons.inj parts
      obtain rfl := Token.operator.inj same
      exact .inr ⟨nil, rest, rfl, rfl, rfl⟩
    | cons first before =>
      obtain ⟨rfl, others⟩ := List.cons.inj parts
      obtain encloses | ⟨front, back, rfl, rfl, rfl⟩ := inductionHypothesis tidy others
      · exact .inl (by simpa using encloses.extend [.operator own] [])
      · exact .inr ⟨operator own front, back, rfl, rfl, rfl⟩
  | group inside rest insideHypothesis restHypothesis =>
    obtain ⟨level, insideTidy, restTidy⟩ := tidy
    obtain _ | ⟨first, before⟩ := before
    · cases parts
    obtain ⟨rfl, others⟩ := List.cons.inj parts
    -- The operator stands behind the group or within it.
    obtain ⟨between, rfl, inRest⟩ | ⟨between, inInside, rfl⟩ := append_eq_append_cons others
    · obtain _ | ⟨last, between⟩ := between
      · cases inRest
      obtain ⟨rfl, behindGroup⟩ := List.cons.inj inRest
      obtain encloses | ⟨front, back, rfl, rfl, rfl⟩ := restHypothesis restTidy behindGroup
      · refine .inl ?_
        have further := encloses.extend (.opening :: (inside.tokens ++ [.closing])) []
        simpa using further
      · exact .inr ⟨group inside front, back, rfl, by simp [tokens], rfl⟩
    · refine .inl ?_
      obtain encloses | ⟨front, back, rfl, rfl, rfl⟩ := insideHypothesis insideTidy inInside
      · exact encloses.extend [.opening] (.closing :: rest.tokens)
      · -- No rank is as high as a loose group would need, so the group is an operation.
        obtain loose | isOperation := level
        · have bound : 3 ≤ op.rank := (loose_append.mp loose).2.1
          exact absurd op.rank_lt_three (by omega)
        · obtain ⟨onLeft, onRight⟩ := isOperation.of_append
          exact ⟨[], _, _, rest.tokens, rfl, rfl, onLeft.isWhole, onRight.isWhole⟩

/-- Where no operator stands outside of brackets and every group is tidy, all are enclosed. -/
theorem enclosed_tokens {forest : Forest} (loose : forest.Loose 3) (tidy : forest.Tidy 3) :
    Enclosed forest.tokens := by
  intro before op behind parts
  obtain encloses | ⟨front, back, rfl, -, -⟩ := encloses_or_outside tidy parts
  · exact encloses
  · have bound : 3 ≤ op.rank := (loose_append.mp loose).2.1
    exact absurd op.rank_lt_three (by omega)

end Forest

open Bracketing in
/-- Bracketing comes to its end if the brackets are balanced and the operators supplied. -/
theorem exists_bracketed? {tokens : List Token} (balanced : Balanced tokens)
    (supplied : ∀ tier, Supplied tier none tokens) :
    ∃ forest : Forest, forest.Loose 3 ∧ forest.Tidy 3 ∧ bracketed? tokens = some forest.tokens := by
  obtain ⟨forest, rfl⟩ := Forest.exists_tokens_eq balanced
  have still {forest swept : Forest} {tier : Tier}
      (done : bracketTier forest.tokens tier = some swept.tokens)
      (supplied : ∀ other, Supplied other none forest.tokens) :
      ∀ other, Supplied other none swept.tokens := fun other =>
    (sweep_supplied_iff done).mpr (supplied other)
  obtain ⟨powers, loose, tidy, powersDone⟩ :=
    exists_bracketTier .power (Forest.loose_zero forest) (Forest.tidy_zero forest)
      (supplied .power)
  have suppliedPowers := still powersDone supplied
  obtain ⟨products, loose, tidy, productsDone⟩ :=
    exists_bracketTier .product loose tidy (suppliedPowers .product)
  have suppliedProducts := still productsDone suppliedPowers
  obtain ⟨sums, loose, tidy, sumsDone⟩ :=
    exists_bracketTier .sum loose tidy (suppliedProducts .sum)
  refine ⟨sums, loose, tidy, ?_⟩
  rw [bracketed?, if_pos (balanced_iff.mpr balanced)]
  simp [Tier.strongestFirst, powersDone, productsDone, sumsDone]

open Bracketing in
/-- A sweep passes over operators that are enclosed. -/
theorem sweep_of_enclosed (tier : Tier) {behind ahead : List Token}
    (enclosed : Enclosed (behind.reverse ++ ahead)) :
    sweep tier behind ahead = some (behind.reverse ++ ahead) := by
  induction ahead generalizing behind with
  | nil => rw [sweep, List.append_nil]
  | cons token ahead inductionHypothesis =>
    have onwards : sweep tier (token :: behind) ahead =
        some (behind.reverse ++ token :: ahead) := by
      have same : Enclosed ((token :: behind).reverse ++ ahead) := by simpa using enclosed
      simpa using inductionHypothesis same
    cases token with
    | operator op =>
      obtain ⟨outer, left, right, rest, before, rfl, onLeft, onRight⟩ := enclosed _ _ _ rfl
      have nearest : behind = left.reverse ++ .opening :: outer.reverse := by
        rw [← List.reverse_reverse behind, before]
        simp
      rw [← onwards, nearest]
      exact sweep_enclosed tier onLeft.operand onRight.operand op outer.reverse rest
    | _ => exact (sweep_pass rfl _ _).trans onwards

namespace Bracketing

/-- Whether a token is a bracket. -/
def isBracket (token : Token) : Bool := token.isOpening || token.isClosing

/-- An inserted bracket leaves the tokens that are no brackets. -/
theorem Insertion.filter {tokens bracketed : List Token} (insertion : Insertion tokens bracketed) :
    bracketed.filter (!isBracket ·) = tokens.filter (!isBracket ·) := by
  cases insertion with
  | opening before behind starts =>
    rw [List.filter_append, List.filter_append, List.filter_cons_of_neg (by decide)]
  | closing before behind =>
    rw [List.filter_append, List.filter_append, List.filter_cons_of_neg (by decide)]

/-- It leaves all tokens that were there, in their order. -/
theorem Insertion.sublist {tokens bracketed : List Token} (insertion : Insertion tokens bracketed) :
    tokens.Sublist bracketed := by
  cases insertion with
  | opening before behind starts => exact (List.sublist_cons_self _ _).append_left _
  | closing before behind => exact (List.sublist_cons_self _ _).append_left _

/-- Nor do more of them touch a token that is no bracket. -/
theorem Insertions.filter {tokens bracketed : List Token}
    (insertions : Insertions tokens bracketed) :
    bracketed.filter (!isBracket ·) = tokens.filter (!isBracket ·) := by
  induction insertions with
  | refl => rfl
  | tail others last inductionHypothesis => exact last.filter.trans inductionHypothesis

/-- And no token is lost by them. -/
theorem Insertions.sublist {tokens bracketed : List Token}
    (insertions : Insertions tokens bracketed) : tokens.Sublist bracketed := by
  induction insertions with
  | refl => exact List.Sublist.refl _
  | tail others last inductionHypothesis => exact inductionHypothesis.trans last.sublist

end Bracketing

/-- Tokens that are balanced and whose operators are enclosed stay as they are. -/
theorem bracketed?_of_enclosed {tokens : List Token} (balanced : Balanced tokens)
    (enclosed : Enclosed tokens) : bracketed? tokens = some tokens := by
  have still (tier : Tier) : Bracketing.bracketTier tokens tier = some tokens :=
    sweep_of_enclosed tier enclosed
  rw [bracketed?, if_pos (Bracketing.balanced_iff.mpr balanced)]
  simp [Tier.strongestFirst, still]

/-- What bracketing makes of tokens, whether a text has them or not. They are malformed exactly if
the brackets are not balanced or an operator has no operand and no closing bracket right before it,
or no operand and no opening bracket right behind it. Otherwise only brackets are put in: the other
tokens are the same in the same order, and the tokens as they were can be found in the result. The
result is balanced, every operator in it stands directly between two brackets with its operands,
each a single one or a matched group; and bracketing it again changes nothing.

Proof: no bracket that is put in changes what operators find next to them. Balanced tokens are a
forest, and a sweep goes through it level by level: whenever it finds an operator of its tier, the
operand before it is the last thing it has passed, and the three become one group, which holds no
other operator outside of brackets. -/
theorem bracketing_exact (tokens : List Token) :
    (orMalformed (bracketed? tokens) = .error .malformed ↔
      ¬ Balanced tokens ∨
        ∃ before op behind, tokens = before ++ .operator op :: behind ∧
          (before.getLast?.any Token.endsOperand = false ∨
            behind.head?.any Token.startsOperand = false)) ∧
    (∀ fault, orMalformed (bracketed? tokens) = .error fault → fault = .malformed) ∧
    ∀ bracketed, orMalformed (bracketed? tokens) = .ok bracketed →
      bracketed.filter (!Bracketing.isBracket ·) = tokens.filter (!Bracketing.isBracket ·) ∧
      tokens.Sublist bracketed ∧ Balanced bracketed ∧
      (∀ before op behind, bracketed = before ++ .operator op :: behind →
        ∃ outer left right rest, before = outer ++ .opening :: left ∧
          behind = right ++ .closing :: rest ∧ IsWhole left ∧ IsWhole right) ∧
      orMalformed (bracketed? bracketed) = .ok bracketed := by
  have success {bracketed : List Token} (accepted : bracketed? tokens = some bracketed) :
      Balanced tokens ∧ ∀ tier, Bracketing.Supplied tier none tokens :=
    ⟨Bracketing.balanced_iff.mp (bracketed?_spec accepted).1, supplied_of_bracketed? accepted⟩
  refine ⟨⟨fun failed => ?_, fun wrong => ?_⟩, fun fault failed => ?_, fun bracketed done => ?_⟩
  · -- Balanced tokens whose operators all have their operands are bracketed.
    by_contra right
    obtain ⟨balanced, each⟩ := not_or.mp right
    have supplied : ∀ tier, Bracketing.Supplied tier none tokens := by
      refine Bracketing.supplied_iff.mpr fun before op behind parts => ?_
      by_contra lacks
      refine each ⟨before, op, behind, parts, ?_⟩
      simpa [imp_iff_not_or] using lacks
    obtain ⟨forest, -, -, accepted⟩ := exists_bracketed? (not_not.mp balanced) supplied
    rw [accepted] at failed
    cases failed
  · -- What is bracketed was balanced, and no operator lacked an operand.
    cases known : bracketed? tokens with
    | none => rfl
    | some bracketed =>
      obtain ⟨balanced, supplied⟩ := success known
      obtain unbalanced | ⟨before, op, behind, parts, lacks⟩ := wrong
      · exact absurd balanced unbalanced
      · obtain ⟨ends, starts⟩ := Bracketing.supplied_iff.mp supplied before op behind parts
        rw [Option.or_none] at ends
        rw [ends, starts] at lacks
        simp at lacks
  · cases known : bracketed? tokens with
    | none =>
      rw [known] at failed
      exact (Except.error.inj failed).symm
    | some bracketed =>
      rw [known] at failed
      cases failed
  · cases known : bracketed? tokens with
    | none =>
      rw [known] at done
      cases done
    | some result =>
      rw [known] at done
      obtain rfl := Except.ok.inj done
      obtain ⟨balanced, supplied⟩ := success known
      obtain ⟨forest, loose, tidy, same⟩ := exists_bracketed? balanced supplied
      obtain rfl := Option.some.inj (known.symm.trans same)
      have insertions := (bracketed?_spec known).2.1
      have enclosed := Forest.enclosed_tokens loose tidy
      refine ⟨insertions.filter, insertions.sublist, forest.balanced_tokens, enclosed, ?_⟩
      rw [bracketed?_of_enclosed forest.balanced_tokens enclosed]
      rfl

end ParamSweep.Formula
