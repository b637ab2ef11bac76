import ParamSweep.Formula.Token

/-!
# Bracketing

Tokens carry no precedence. Bracketing inserts brackets until every operator stands directly
between an opening and a closing bracket together with its two operands; after that the
brackets alone say what belongs together.

One sweep per tier, the strongest first, walks the tokens from left to right. At an operator
of its tier it takes the operand on either side, which is a single number or name or a matched
group, and puts brackets around the three unless they are there already. An operator without
an operand on one side stops the sweep.

The walk keeps the tokens behind it in reverse, so both operands are read outwards from the
operator. Brackets put in behind the walk cost nothing; the one put in ahead of it is paid for
by the operator just passed, which weighs as much as two other tokens.
-/

namespace ParamSweep.Formula.Bracketing

/-- The number of groups still open after some tokens, if no group is closed unopened. -/
def openAfter : (opened : Nat) → List Token → Option Nat
  | opened, [] => some opened
  | opened, .opening :: rest => openAfter (opened + 1) rest
  | 0, .closing :: _ => none
  | opened + 1, .closing :: rest => openAfter opened rest
  | opened, _ :: rest => openAfter opened rest

/-- Whether every bracket has its partner. -/
def balanced (tokens : List Token) : Bool := openAfter 0 tokens == some 0

/-- How many tokens there are up to the end of the outermost of `opened` open groups, where
`opens` and `closes` tell the brackets in the direction of reading. -/
def groupLength (opens closes : Token → Bool) : (opened : Nat) → List Token → Option Nat
  | _, [] => none
  | opened, token :: rest =>
    if opens token then
      (groupLength opens closes (opened + 1) rest).map (· + 1)
    else if closes token then
      match opened with
      | 0 => none
      | 1 => some 1
      | opened + 2 => (groupLength opens closes (opened + 1) rest).map (· + 1)
    else
      (groupLength opens closes opened rest).map (· + 1)

/-- The length of the operand at the head of the tokens: a number, a name or a group. -/
def operandLength (opens closes : Token → Bool) (tokens : List Token) : Option Nat :=
  match tokens with
  | [] => none
  | token :: _ =>
    if token.isOperand then some 1
    else if opens token then groupLength opens closes 0 tokens
    else none

/-- The length of the operand that ends just before, read backwards. -/
def lengthBehind (behind : List Token) : Option Nat :=
  operandLength Token.isClosing Token.isOpening behind

/-- The length of the operand that starts just ahead. -/
def lengthAhead (ahead : List Token) : Option Nat :=
  operandLength Token.isOpening Token.isClosing ahead

/-- Whether a token is an operator of a tier. -/
def inTier (tier : Tier) (token : Token) : Bool :=
  match token with
  | .operator op => op.tier = tier
  | _ => false

/-- Whether an operator and its operands stand between brackets already. -/
def enclosed (behind ahead : List Token) : Bool :=
  behind.head?.any Token.isOpening && ahead.head?.any Token.isClosing

/-- What a token costs the walk: an operator may add a bracket to what lies ahead. -/
def weight (token : Token) : Nat := if token.operator?.isSome then 2 else 1

/-- What the tokens ahead cost the walk. -/
def work (tokens : List Token) : Nat := tokens.foldr (weight · + ·) 0

/-- The work on some tokens is that on each of them. -/
theorem work_cons (token : Token) (rest : List Token) :
    work (token :: rest) = weight token + work rest := rfl

/-- It does not matter where a token is put in. -/
theorem work_insert (token : Token) (count : Nat) (tokens : List Token) :
    work (tokens.take count ++ token :: tokens.drop count) = weight token + work tokens := by
  induction tokens generalizing count with
  | nil => simp [work]
  | cons first rest inductionHypothesis =>
    cases count with
    | zero => simp [work]
    | succ count =>
      simp only [List.take_succ_cons, List.drop_succ_cons, List.cons_append, work_cons,
        inductionHypothesis]
      omega

/-- There is no token without work. -/
theorem weight_pos (token : Token) : 0 < weight token := by
  unfold weight; split <;> omega

/-- An operator of the tier is twice as much work, since brackets may be put in for it. -/
theorem weight_of_inTier {tier : Tier} {token : Token} (operator : inTier tier token = true) :
    weight token = 2 := by
  cases token <;> simp_all [inTier, weight, Token.operator?]

/-- Walks on with the tokens `behind`, nearest first, and the tokens `ahead`. -/
def sweep (tier : Tier) (behind ahead : List Token) : Option (List Token) :=
  match ahead with
  | [] => some behind.reverse
  | token :: rest =>
    if inTier tier token then
      match lengthBehind behind, lengthAhead rest with
      | some left, some right =>
        if enclosed (behind.drop left) (rest.drop right) then
          sweep tier (token :: behind) rest
        else
          sweep tier
            (token :: (behind.take left ++ .opening :: behind.drop left))
            (rest.take right ++ .closing :: rest.drop right)
      | _, _ => none
    else
      sweep tier (token :: behind) rest
termination_by work ahead
decreasing_by
  · have := weight_pos token
    simp only [work_cons]
    omega
  · have closing : weight Token.closing = 1 := rfl
    simp only [work_cons, work_insert, weight_of_inTier ‹inTier tier token = true›]
    omega
  · have := weight_pos token
    simp only [work_cons]
    omega

/-- Brackets every operator of one tier. -/
def bracketTier (tokens : List Token) (tier : Tier) : Option (List Token) :=
  sweep tier [] tokens

end ParamSweep.Formula.Bracketing

namespace ParamSweep.Formula

/-- The tokens with every operator bracketed, if the brackets are balanced and every operator
has its operands. -/
def bracketed? (tokens : List Token) : Option (List Token) :=
  if Bracketing.balanced tokens then
    Tier.strongestFirst.foldlM Bracketing.bracketTier tokens
  else
    none

end ParamSweep.Formula
