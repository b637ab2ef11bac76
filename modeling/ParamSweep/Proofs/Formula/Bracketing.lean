import ParamSweep.Proofs.Formula.Term

/-!
# Bracketing a term

Tokens in which every bracket has its partner are passed over as a whole when a group is
measured, from either side. So an operand next to an operator is measured exactly, and a sweep
puts the brackets of its tier where the term has its operations.

`Term.spelled` says what the tokens of a term are once the tiers below `done` have been swept.
Brackets that the text has around an operation serve as its own; the flag says whether there are
such brackets. A sweep turns each spelling into the next one, and after three of them every
operation stands in brackets.
-/

namespace ParamSweep.Formula

namespace Bracketing

/-- Tokens in which every bracket has its partner; `opens` and `closes` tell the brackets in the
direction of reading. -/
inductive Nested (opens closes : Token → Bool) : List Token → Prop
  | nil : Nested opens closes []
  | plain {token : Token} (opensNot : opens token = false) (closesNot : closes token = false) :
      Nested opens closes [token]
  | group {first last : Token} {inside : List Token} (opening : opens first = true)
      (closing : closes last = true) (opensNot : opens last = false)
      (nested : Nested opens closes inside) : Nested opens closes (first :: inside ++ [last])
  | append {left right : List Token} (onLeft : Nested opens closes left)
      (onRight : Nested opens closes right) : Nested opens closes (left ++ right)

/-- No token both opens and closes. -/
theorem opening_not_closing {token : Token} (opens : token.isOpening = true) :
    token.isClosing = false := by
  cases token <;> simp_all [Token.isOpening, Token.isClosing]

/-- Read backwards, opening and closing brackets change their roles. -/
theorem Nested.backwards {opens closes : Token → Bool}
    (apart : ∀ token, opens token = true → closes token = false) {segment : List Token}
    (nested : Nested opens closes segment) : Nested closes opens segment.reverse := by
  induction nested with
  | nil => exact .nil
  | plain opensNot closesNot => exact .plain closesNot opensNot
  | group opening closing opensNot nested inductionHypothesis =>
    simpa using Nested.group closing opening (apart _ opening) inductionHypothesis
  | append onLeft onRight leftHypothesis rightHypothesis =>
    rw [List.reverse_append]
    exact .append rightHypothesis leftHypothesis

/-- Nested brackets are nested backwards, with their roles changed. -/
theorem Nested.reverse {segment : List Token}
    (nested : Nested Token.isOpening Token.isClosing segment) :
    Nested Token.isClosing Token.isOpening segment.reverse :=
  nested.backwards fun _ => opening_not_closing

/-- Inside of an open group, nested tokens add their length and leave the group open. -/
theorem groupLength_nested {opens closes : Token → Bool} {segment : List Token}
    (nested : Nested opens closes segment) (opened : Nat) (rest : List Token) :
    groupLength opens closes (opened + 1) (segment ++ rest) =
      (groupLength opens closes (opened + 1) rest).map (· + segment.length) := by
  induction nested generalizing opened rest with
  | nil => simp
  | plain opensNot closesNot => simp [groupLength, opensNot, closesNot]
  | @group first last inside opening closing opensNot nested inductionHypothesis =>
    simp only [List.cons_append, List.append_assoc, List.nil_append, groupLength, opening,
      if_true, inductionHypothesis, opensNot, closing, Bool.false_eq_true, if_false]
    simp only [Option.map_map]
    congr 1
    funext count
    simp only [Function.comp_apply, List.length_cons, List.length_append, List.length_nil]
    omega
  | append onLeft onRight leftHypothesis rightHypothesis =>
    rw [List.append_assoc, leftHypothesis, rightHypothesis, Option.map_map]
    congr 1
    funext count
    simp only [Function.comp_apply, List.length_append]
    omega

/-- A single number or name, or a group. -/
inductive Operand (opens closes : Token → Bool) : List Token → Prop
  | single {token : Token} (operand : token.isOperand = true) : Operand opens closes [token]
  | group {first last : Token} {inside : List Token} (operandNot : first.isOperand = false)
      (opening : opens first = true) (closing : closes last = true) (opensNot : opens last = false)
      (nested : Nested opens closes inside) : Operand opens closes (first :: inside ++ [last])

/-- Read backwards, an operand is an operand. -/
theorem Operand.backwards {opens closes : Token → Bool}
    (apart : ∀ token, opens token = true → closes token = false)
    (bracket : ∀ token, closes token = true → token.isOperand = false) {segment : List Token}
    (operand : Operand opens closes segment) : Operand closes opens segment.reverse := by
  cases operand with
  | single operand => exact .single operand
  | @group first last inside operandNot opening closing opensNot nested =>
    simpa using Operand.group (bracket last closing) closing opening (apart first opening)
      (nested.backwards apart)

/-- An operand, as the walk backwards meets it. -/
theorem Operand.reverse {segment : List Token}
    (operand : Operand Token.isOpening Token.isClosing segment) :
    Operand Token.isClosing Token.isOpening segment.reverse := by
  refine operand.backwards (fun _ => opening_not_closing) fun token closing => ?_
  cases token <;> first | rfl | cases closing

/-- An operand that was met backwards, as it stands in the text. -/
theorem Operand.forwards {segment : List Token}
    (operand : Operand Token.isClosing Token.isOpening segment) :
    Operand Token.isOpening Token.isClosing segment.reverse := by
  refine operand.backwards (fun token closing => ?_) fun token opening => ?_
  · cases token <;> first | rfl | cases closing
  · cases token <;> first | rfl | cases opening

/-- An operand is measured exactly, whatever follows it. -/
theorem operandLength_operand {opens closes : Token → Bool} {segment : List Token}
    (operand : Operand opens closes segment) (rest : List Token) :
    operandLength opens closes (segment ++ rest) = some segment.length := by
  cases operand with
  | single operand => simp [operandLength, operand]
  | @group first last inside operandNot opening closing opensNot nested =>
    have measured := groupLength_nested nested 0 (last :: rest)
    simp [operandLength, operandNot, opening, groupLength, measured, opensNot, closing,
      Nat.add_comm]

/-- Nested tokens leave as many groups open as there were. -/
theorem openAfter_nested {segment : List Token}
    (nested : Nested Token.isOpening Token.isClosing segment) (opened : Nat)
    (rest : List Token) : openAfter opened (segment ++ rest) = openAfter opened rest := by
  induction nested generalizing opened rest with
  | nil => rfl
  | @plain token opensNot closesNot =>
    cases token <;> simp_all [openAfter, Token.isOpening, Token.isClosing]
  | @group first last inside opening closing opensNot nested inductionHypothesis =>
    cases first <;> simp only [Token.isOpening, Bool.false_eq_true] at opening
    cases last <;> simp only [Token.isClosing, Bool.false_eq_true] at closing
    simp [openAfter, inductionHypothesis]
  | append onLeft onRight leftHypothesis rightHypothesis =>
    rw [List.append_assoc, leftHypothesis, rightHypothesis]

/-- Nested brackets are balanced. -/
theorem balanced_nested {tokens : List Token}
    (nested : Nested Token.isOpening Token.isClosing tokens) : balanced tokens = true := by
  have same := openAfter_nested nested 0 []
  rw [List.append_nil] at same
  simp [balanced, same, openAfter]

end Bracketing

namespace Term

/-- The tokens of a term once the tiers with a rank below `done` have been swept; `enclosed`
tells whether the term stands directly between brackets. -/
def spelled (done : Nat) : (enclosed : Bool) → Term → List Token
  | _, number value => [.number value]
  | _, name text => [.name text]
  | _, group inner => .opening :: inner.spelled done true ++ [.closing]
  | enclosed, operation op left right =>
    let body := left.spelled done false ++ .operator op :: right.spelled done false
    if op.rank < done && !enclosed then .opening :: body ++ [.closing] else body

/-- Before the first sweep there are the brackets of the text and no others. -/
theorem spelled_zero (term : Term) (enclosed : Bool) : term.spelled 0 enclosed = term.tokens := by
  induction term generalizing enclosed with
  | number value => rfl
  | name text => rfl
  | group inner inductionHypothesis => simp [spelled, tokens, inductionHypothesis]
  | operation op left right onLeft onRight => simp [spelled, tokens, onLeft, onRight]

open Bracketing in
/-- The brackets of a spelling are nested, whichever tiers have been swept. -/
theorem nested_spelled (term : Term) (done : Nat) (enclosed : Bool) :
    Nested Token.isOpening Token.isClosing (term.spelled done enclosed) := by
  induction term generalizing enclosed with
  | number value => exact .plain rfl rfl
  | name text => exact .plain rfl rfl
  | group inner inductionHypothesis => exact .group rfl rfl rfl (inductionHypothesis true)
  | operation op left right onLeft onRight =>
    have body : Nested Token.isOpening Token.isClosing
        (left.spelled done false ++ ([.operator op] ++ right.spelled done false)) :=
      .append (onLeft false) (.append (.plain rfl rfl) (onRight false))
    simp only [spelled]
    split
    · exact .group rfl rfl rfl body
    · exact body

open Bracketing in
/-- Once the tiers below `done` are swept, a term with nothing else outside of brackets is an
operand: an operation has its brackets. -/
theorem operand_spelled {term : Term} {done : Nat} (layered : term.Layered done) :
    Operand Token.isOpening Token.isClosing (term.spelled done false) := by
  cases term with
  | number value => exact .single rfl
  | name text => exact .single rfl
  | group inner => exact .group rfl rfl rfl rfl (inner.nested_spelled done true)
  | operation op left right =>
    have body : Nested Token.isOpening Token.isClosing
        (left.spelled done false ++ ([.operator op] ++ right.spelled done false)) :=
      .append (left.nested_spelled done false)
        (.append (.plain rfl rfl) (right.nested_spelled done false))
    simp only [spelled, layered.1, decide_true, Bool.not_false, Bool.and_self, if_true]
    exact .group rfl rfl rfl rfl body

end Term

namespace Bracketing

/-- The rank of a tier. -/
def rankOf : Tier → Nat
  | .power => 0
  | .product => 1
  | .sum => 2

/-- An operator belongs to the tier of its rank. -/
theorem inTier_operator (tier : Tier) (op : Operator) :
    inTier tier (.operator op) = decide (op.rank = rankOf tier) := by
  cases tier <;> cases op <;> rfl

/-- A token that is no operator of the tier is passed over. -/
theorem sweep_pass {tier : Tier} {token : Token} (outside : inTier tier token = false)
    (behind rest : List Token) :
    sweep tier behind (token :: rest) = sweep tier (token :: behind) rest := by
  rw [sweep]
  simp [outside]

/-- An opening bracket is passed over. -/
theorem sweep_opening (tier : Tier) (behind rest : List Token) :
    sweep tier behind (.opening :: rest) = sweep tier (.opening :: behind) rest :=
  sweep_pass rfl behind rest

/-- A closing bracket is passed over. -/
theorem sweep_closing (tier : Tier) (behind rest : List Token) :
    sweep tier behind (.closing :: rest) = sweep tier (.closing :: behind) rest :=
  sweep_pass rfl behind rest

/-- An operator of the tier between two operands: if brackets stand around the three already,
the sweep goes on; otherwise it puts them in. -/
theorem sweep_operator {tier : Tier} {op : Operator} (inside : inTier tier (.operator op) = true)
    {left right : List Token} (onLeft : Operand Token.isOpening Token.isClosing left)
    (onRight : Operand Token.isOpening Token.isClosing right) (behind rest : List Token) :
    sweep tier (left.reverse ++ behind) (.operator op :: right ++ rest) =
      if enclosed behind rest then
        sweep tier (.operator op :: (left.reverse ++ behind)) (right ++ rest)
      else
        sweep tier (.operator op :: (left.reverse ++ .opening :: behind))
          (right ++ .closing :: rest) := by
  have measuredLeft : lengthBehind (left.reverse ++ behind) = some left.reverse.length :=
    operandLength_operand onLeft.reverse behind
  have measuredRight : lengthAhead (right ++ rest) = some right.length :=
    operandLength_operand onRight rest
  rw [List.cons_append, sweep]
  simp only [inside, if_true, measuredLeft, measuredRight, List.drop_left, List.take_left]

/-- What is followed by an operator is not enclosed. -/
theorem enclosed_operator_ahead (behind ahead : List Token) (op : Operator) :
    enclosed behind (.operator op :: ahead) = false := by
  simp [enclosed, Token.isClosing]

/-- What is preceded by an operator is not enclosed. -/
theorem enclosed_operator_behind (behind ahead : List Token) (op : Operator) :
    enclosed (.operator op :: behind) ahead = false := by
  simp [enclosed, Token.isOpening]

/-- Over a term, the sweep of a tier turns the spelling before it into the spelling after it.

Proof: by induction on the term. In a group the brackets of the text enclose what is inside.
The left operand of an operator is followed by the operator and the right one preceded by it,
so neither is enclosed. At an operator of the tier both sides are operands: the left one has
been swept, and the right one holds only stronger operators outside of its brackets. -/
theorem sweep_spelled {term : Term} {bound : Nat} (tier : Tier) (layered : term.Layered bound)
    (behind rest : List Token) :
    sweep tier behind (term.spelled (rankOf tier) (enclosed behind rest) ++ rest) =
      sweep tier ((term.spelled (rankOf tier + 1) (enclosed behind rest)).reverse ++ behind)
        rest := by
  induction term generalizing bound behind rest with
  | number value => exact sweep_pass rfl behind rest
  | name text => exact sweep_pass rfl behind rest
  | group inner inductionHypothesis =>
    have inside := inductionHypothesis layered (.opening :: behind) (.closing :: rest)
    have enclosing : enclosed (.opening :: behind) (.closing :: rest) = true := rfl
    rw [enclosing] at inside
    simp only [Term.spelled, List.cons_append, List.append_assoc, List.nil_append]
    rw [sweep_opening, inside, sweep_closing]
    simp
  | operation op left right leftHypothesis rightHypothesis =>
    obtain ⟨-, leftLayered, rightLayered⟩ := layered
    have overLeft (before more : List Token) :
        sweep tier before (left.spelled (rankOf tier) false ++ .operator op :: more) =
          sweep tier ((left.spelled (rankOf tier + 1) false).reverse ++ before)
            (.operator op :: more) := by
      have swept := leftHypothesis leftLayered before (.operator op :: more)
      rwa [enclosed_operator_ahead] at swept
    have overRight (before more : List Token) :
        sweep tier (.operator op :: before) (right.spelled (rankOf tier) false ++ more) =
          sweep tier ((right.spelled (rankOf tier + 1) false).reverse ++ .operator op :: before)
            more := by
      have swept := rightHypothesis rightLayered (.operator op :: before) more
      rwa [enclosed_operator_behind] at swept
    by_cases own : op.rank = rankOf tier
    · have inside : inTier tier (.operator op) = true := by simp [inTier_operator, own]
      have leftOperand := Term.operand_spelled (own ▸ leftLayered)
      have rightOperand := Term.operand_spelled (own ▸ rightLayered)
      have stands := sweep_operator inside leftOperand rightOperand behind rest
      simp only [Term.spelled, own, Nat.lt_irrefl, decide_false, Bool.false_and,
        Bool.false_eq_true, if_false, Nat.lt_succ_self, decide_true, Bool.true_and,
        List.append_assoc]
      rw [List.cons_append, overLeft, ← List.cons_append, stands]
      cases enclosed behind rest with
      | true => simp [overRight]
      | false => simp [overRight, sweep_closing]
    · have outside : inTier tier (.operator op) = false := by simp [inTier_operator, own]
      have later : (op.rank < rankOf tier + 1) = (op.rank < rankOf tier) := by
        apply propext
        omega
      have overBody (before more : List Token) :
          sweep tier before (left.spelled (rankOf tier) false ++
              .operator op :: (right.spelled (rankOf tier) false ++ more)) =
            sweep tier ((right.spelled (rankOf tier + 1) false).reverse ++ .operator op ::
              ((left.spelled (rankOf tier + 1) false).reverse ++ before)) more := by
        rw [overLeft, sweep_pass outside, overRight]
      simp only [Term.spelled, later]
      split
      · simp [sweep_opening, sweep_closing, overBody]
      · simp [overBody]

/-- The sweep of a tier over a whole term. -/
theorem bracketTier_spelled {term : Term} {bound : Nat} (tier : Tier)
    (layered : term.Layered bound) :
    bracketTier (term.spelled (rankOf tier) false) tier =
      some (term.spelled (rankOf tier + 1) false) := by
  have swept := sweep_spelled tier layered [] []
  have free : enclosed [] [] = false := rfl
  rw [free, List.append_nil, List.append_nil] at swept
  rw [bracketTier, swept, sweep, List.reverse_reverse]

end Bracketing

/-- The tokens of a term are bracketed, and every operation gets exactly one pair of brackets. -/
theorem bracketed?_tokens {term : Term} {bound : Nat} (layered : term.Layered bound) :
    bracketed? term.tokens = some (term.spelled 3 false) := by
  have balanced : Bracketing.balanced term.tokens = true := by
    rw [← term.spelled_zero false]
    exact Bracketing.balanced_nested (term.nested_spelled 0 false)
  have powers : Bracketing.bracketTier term.tokens .power = some (term.spelled 1 false) := by
    rw [← term.spelled_zero false]
    exact Bracketing.bracketTier_spelled .power layered
  have products : Bracketing.bracketTier (term.spelled 1 false) .product =
      some (term.spelled 2 false) := Bracketing.bracketTier_spelled .product layered
  have sums : Bracketing.bracketTier (term.spelled 2 false) .sum =
      some (term.spelled 3 false) := Bracketing.bracketTier_spelled .sum layered
  simp [bracketed?, balanced, Tier.strongestFirst, powers, products, sums]

end ParamSweep.Formula
