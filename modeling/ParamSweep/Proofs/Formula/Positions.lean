import Mathlib.Data.List.Forall2
import ParamSweep.Proofs.Formula.Matching

/-!
# A sweep on positions

The same sweep on one list of tokens and a position in it. Here nothing keeps the sweep inside of
the tokens: it reads at positions it has worked out, counts open groups up and down, and puts
brackets in before and behind the position it has come to. So every read, every insertion and every
step down of a count is guarded, and says what went wrong if it fails.

The tokens behind a walk and those ahead of it are the tokens in a row, and the walk stands at the
first one ahead. A turn on positions then is a step of the walk, and it goes wrong in no other way
than the walk: an operand is lacking, or a group next to the operator has no end.
-/

namespace ParamSweep.Formula

namespace Bracketing

/-- What can go wrong in a sweep on positions. -/
inductive Misstep
  /-- An operator has no operand on one side. -/
  | lacking
  /-- The tokens end before a group does. -/
  | unmatched
  /-- A group is closed while none is open. -/
  | uncounted
  /-- A position lies outside of the tokens. -/
  | outside
  deriving DecidableEq, Repr

/-- The token at a position. -/
def tokenAt (tokens : List Token) (position : Nat) : Except Misstep Token :=
  match tokens[position]? with
  | some token => .ok token
  | none => .error .outside

/-- One open group less. -/
def oneLess : Nat → Except Misstep Nat
  | 0 => .error .uncounted
  | opened + 1 => .ok opened

/-- Puts a token in at a position, or behind the last one. -/
def insertAt (tokens : List Token) (position : Nat) (token : Token) : Except Misstep (List Token) :=
  if position ≤ tokens.length then
    .ok (tokens.take position ++ token :: tokens.drop position)
  else
    .error .outside

/-- Goes through positions to the end of the outermost of `opened` open groups, where `opens` and
`closes` tell the brackets in the direction of reading. -/
def partnerAmong (opens closes : Token → Bool) (tokens : List Token) :
    (opened : Nat) → (positions : List Nat) → Except Misstep Nat
  | _, [] => .error .unmatched
  | opened, position :: positions => do
    let token ← tokenAt tokens position
    if opens token then
      partnerAmong opens closes tokens (opened + 1) positions
    else if closes token then
      let outer ← oneLess opened
      if outer = 0 then
        return position
      else
        partnerAmong opens closes tokens outer positions
    else
      partnerAmong opens closes tokens opened positions

/-- The position of the bracket that closes the group opened at a position. -/
def closingPartner (tokens : List Token) (position : Nat) : Except Misstep Nat :=
  partnerAmong Token.isOpening Token.isClosing tokens 0
    (List.range' position (tokens.length - position))

/-- The position of the bracket that opens the group closed at a position. -/
def openingPartner (tokens : List Token) (position : Nat) : Except Misstep Nat :=
  partnerAmong Token.isClosing Token.isOpening tokens 0 (List.range (position + 1)).reverse

/-- The first position of the operand that ends right before a position. -/
def operandStart (tokens : List Token) : (position : Nat) → Except Misstep Nat
  | 0 => .error .lacking
  | last + 1 => do
    let token ← tokenAt tokens last
    if token.isOperand then
      return last
    else if token.isClosing then
      openingPartner tokens last
    else
      throw .lacking

/-- The last position of the operand that starts right behind a position. -/
def operandEnd (tokens : List Token) (position : Nat) : Except Misstep Nat :=
  match tokens[position + 1]? with
  | none => .error .lacking
  | some token =>
    if token.isOperand then
      .ok (position + 1)
    else if token.isOpening then
      closingPartner tokens (position + 1)
    else
      .error .lacking

/-- Whether brackets stand right before the first and right behind the last of some positions. -/
def standsEnclosed (tokens : List Token) (first last : Nat) : Bool :=
  decide (0 < first) && tokens[first - 1]?.any Token.isOpening &&
    tokens[last + 1]?.any Token.isClosing

/-- The tokens in a row, and the position that a sweep has come to. -/
structure Scan where
  tokens : List Token
  position : Nat

namespace Scan

/-- One turn of the sweep of a tier. -/
def turn (tier : Tier) (scan : Scan) : Except Misstep Scan := do
  let token ← tokenAt scan.tokens scan.position
  if inTier tier token then
    let first ← operandStart scan.tokens scan.position
    let last ← operandEnd scan.tokens scan.position
    if standsEnclosed scan.tokens first last then
      return ⟨scan.tokens, scan.position + 1⟩
    else
      let closed ← insertAt scan.tokens (last + 1) .closing
      let enclosed ← insertAt closed first .opening
      -- The operator has moved on with the bracket before it.
      return ⟨enclosed, scan.position + 2⟩
  else
    return ⟨scan.tokens, scan.position + 1⟩

/-- Where a walk with the tokens `behind`, nearest first, and the tokens `ahead` stands. -/
def ofWalk (behind ahead : List Token) : Scan := ⟨behind.reverse ++ ahead, behind.length⟩

end Scan

/-! ### The partner of a bracket -/

section Partner

variable {opens closes : Token → Bool} {tokens segment : List Token} {positions : List Nat}

/-- Tokens stand at these positions, one at each. -/
abbrev StandAt (tokens : List Token) : (positions : List Nat) → (segment : List Token) → Prop :=
  List.Forall₂ fun position token => tokens[position]? = some token

/-- A token is found at a position within the tokens. -/
theorem tokenAt_of_getElem? {position : Nat} {token : Token}
    (here : tokens[position]? = some token) : tokenAt tokens position = .ok token := by
  rw [tokenAt, here]

/-- Going through positions is measuring the tokens that stand there, if a group is open or the
first token opens one.

Proof: by induction on the positions. A group that is closed was open before, so the count of open
groups is never zero when it is lowered. -/
theorem partnerAmong_eq {opened : Nat} (stands : StandAt tokens positions segment)
    (counts : 0 < opened ∨ segment.head?.any opens = true) :
    partnerAmong opens closes tokens opened positions =
      ((groupLength opens closes opened segment).bind (positions[· - 1]?)).elim
        (.error .unmatched) .ok := by
  induction stands generalizing opened with
  | nil => rfl
  | @cons position token positions segment here stands inductionHypothesis =>
    have further (deeper : Nat) : partnerAmong opens closes tokens (deeper + 1) positions =
        (((groupLength opens closes (deeper + 1) segment).map (· + 1)).bind
          ((position :: positions)[· - 1]?)).elim (.error .unmatched) .ok := by
      rw [inductionHypothesis (.inl (Nat.succ_pos _))]
      cases measured : groupLength opens closes (deeper + 1) segment with
      | none => rfl
      | some length =>
        obtain ⟨front, -, -, -, rfl, -⟩ := groupLength_eq_some measured
        rfl
    rw [partnerAmong, tokenAt_of_getElem? here, groupLength.eq_def]
    dsimp only [bind, Except.bind]
    split
    next opening => exact further opened
    next opensNot =>
      have open_pos : 0 < opened := counts.resolve_right (by simpa using opensNot)
      obtain ⟨outer, rfl⟩ := Nat.exists_eq_succ_of_ne_zero open_pos.ne'
      split
      next closing =>
        cases outer with
        | zero => rfl
        | succ outer => exact further outer
      next => exact further outer

end Partner

/-- The tokens ahead stand at the positions from the number of those behind on. -/
theorem standAt_ahead (front back : List Token) :
    StandAt (front ++ back) (List.range' front.length back.length) back := by
  induction back generalizing front with
  | nil => exact .nil
  | cons token back inductionHypothesis =>
    have others := inductionHypothesis (front ++ [token])
    rw [List.append_assoc, List.length_append] at others
    exact .cons (by simp) others

/-- The tokens behind, nearest first, stand at the positions counted down. -/
theorem standAt_behind (behind ahead : List Token) :
    StandAt (behind.reverse ++ ahead) (List.range behind.length).reverse behind := by
  induction behind generalizing ahead with
  | nil => exact .nil
  | cons token behind inductionHypothesis =>
    have others := inductionHypothesis (token :: ahead)
    rw [List.length_cons, List.range_succ, List.reverse_append, List.reverse_cons,
      List.append_assoc]
    exact .cons (by simp) others

/-- The closing partner is looked for in the tokens from the bracket on. -/
theorem closingPartner_eq {back : List Token} (opening : back.head?.any Token.isOpening = true)
    (front : List Token) :
    closingPartner (front ++ back) front.length =
      (groupLength Token.isOpening Token.isClosing 0 back).elim (.error .unmatched)
        fun length => .ok (front.length + (length - 1)) := by
  have same : (front ++ back).length - front.length = back.length := by simp
  rw [closingPartner, same, partnerAmong_eq (standAt_ahead front back) (.inr opening)]
  cases measured : groupLength Token.isOpening Token.isClosing 0 back with
  | none => rfl
  | some length =>
    obtain ⟨inside, last, rest, rfl, rfl, -⟩ := groupLength_eq_some measured
    simp

/-- The opening partner is looked for in the tokens from the bracket backwards. -/
theorem openingPartner_eq {last : Token} {others : List Token} (closing : last.isClosing = true)
    (ahead : List Token) :
    openingPartner ((last :: others).reverse ++ ahead) others.length =
      (groupLength Token.isClosing Token.isOpening 0 (last :: others)).elim (.error .unmatched)
        fun length => .ok ((last :: others).length - length) := by
  rw [openingPartner, ← List.length_cons,
    partnerAmong_eq (standAt_behind (last :: others) ahead) (.inr (by simpa using closing))]
  cases measured : groupLength Token.isClosing Token.isOpening 0 (last :: others) with
  | none => rfl
  | some length =>
    obtain ⟨inside, first, rest, parts, rfl, -⟩ := groupLength_eq_some measured
    simp [parts]
    omega

/-- Looking for a partner finds one, or the tokens are not balanced. -/
def Meets (tokens : List Token) (bracket : Token) : Except Misstep Nat → Prop
  | .ok partner => tokens[partner]? = some bracket
  | .error misstep => misstep = .unmatched ∧ ¬ Balanced tokens

/-- From an opening bracket on, the partner is a closing bracket. -/
theorem meets_closingPartner (front back : List Token) :
    Meets (front ++ .opening :: back) .closing
      (closingPartner (front ++ .opening :: back) front.length) := by
  rw [closingPartner_eq rfl]
  cases measured : groupLength Token.isOpening Token.isClosing 0 (.opening :: back) with
  | none => exact ⟨rfl, not_balanced_of_endless rfl measured front⟩
  | some length =>
    obtain ⟨inside, last, rest, parts, rfl, closing⟩ := groupLength_eq_some measured
    obtain rfl : last = .closing := by cases last <;> first | rfl | cases closing
    rw [parts]
    simp [Meets]

/-- The count does go below zero where it does not begin at an opening bracket. -/
example : closingPartner [.closing] 0 = .error .uncounted := rfl

/-- From a closing bracket backwards, it is an opening one. -/
theorem meets_openingPartner (others ahead : List Token) :
    Meets ((.closing :: others).reverse ++ ahead) .opening
      (openingPartner ((.closing :: others).reverse ++ ahead) others.length) := by
  rw [openingPartner_eq rfl]
  cases measured : groupLength Token.isClosing Token.isOpening 0 (.closing :: others) with
  | none => exact ⟨rfl, not_balanced_of_beginless rfl measured ahead⟩
  | some length =>
    obtain ⟨inside, first, rest, parts, rfl, opening⟩ := groupLength_eq_some measured
    obtain rfl : first = .opening := by cases first <;> first | rfl | cases opening
    have partner : (inside ++ .opening :: rest).length - (inside.length + 1) = rest.length := by
      rw [List.length_append, List.length_cons]
      omega
    rw [parts, Option.elim, partner, Meets]
    simp

/-! ### The operands of an operator -/

/-- The missteps that are the fault of the tokens: an operand is lacking, or a group has no end
because the brackets are not balanced. -/
def Misstep.DueTo (tokens : List Token) : Misstep → Prop
  | lacking => True
  | unmatched => ¬ Balanced tokens
  | uncounted | outside => False

/-- The operand before a position begins where the walk finds it to begin, and is missed only if
the walk misses it. -/
theorem operandStart_spec (behind ahead : List Token) :
    match lengthBehind behind with
    | some length => operandStart (behind.reverse ++ ahead) behind.length =
        .ok (behind.length - length)
    | none => ∃ misstep, operandStart (behind.reverse ++ ahead) behind.length = .error misstep ∧
        misstep.DueTo (behind.reverse ++ ahead) := by
  cases behind with
  | nil => exact ⟨.lacking, rfl, trivial⟩
  | cons last others =>
    have nearest : tokenAt ((last :: others).reverse ++ ahead) others.length = .ok last :=
      tokenAt_of_getElem? (by simp)
    rw [List.length_cons, operandStart, nearest, lengthBehind, operandLength]
    dsimp only [bind, Except.bind]
    cases single : last.isOperand with
    | true => rfl
    | false =>
      cases closing : last.isClosing with
      | false => exact ⟨.lacking, rfl, trivial⟩
      | true =>
        simp only [Bool.false_eq_true, if_false, if_true, openingPartner_eq closing]
        cases measured : groupLength Token.isClosing Token.isOpening 0 (last :: others) with
        | some length => rfl
        | none => exact ⟨.unmatched, rfl, not_balanced_of_beginless closing measured ahead⟩

/-- The operand behind a position ends where the walk finds it to end, and is missed only if the
walk misses it. -/
theorem operandEnd_spec (front : List Token) (token : Token) (ahead : List Token) :
    match lengthAhead ahead with
    | some length => operandEnd (front ++ token :: ahead) front.length = .ok (front.length + length)
    | none => ∃ misstep, operandEnd (front ++ token :: ahead) front.length = .error misstep ∧
        misstep.DueTo (front ++ token :: ahead) := by
  have parts : front ++ token :: ahead = (front ++ [token]) ++ ahead := by simp
  have position : front.length + 1 = (front ++ [token]).length := by simp
  cases ahead with
  | nil => exact ⟨.lacking, by simp [operandEnd], trivial⟩
  | cons first others =>
    have nearest : (front ++ token :: first :: others)[front.length + 1]? = some first := by simp
    rw [operandEnd, nearest, lengthAhead, operandLength]
    dsimp only
    cases single : first.isOperand with
    | true => rfl
    | false =>
      cases opening : first.isOpening with
      | false => exact ⟨.lacking, rfl, trivial⟩
      | true =>
        have opens : (first :: others).head?.any Token.isOpening = true := by simpa using opening
        have found := closingPartner_eq opens (front ++ [token])
        simp only [Bool.false_eq_true, if_false, if_true, parts, position, found]
        cases measured : groupLength Token.isOpening Token.isClosing 0 (first :: others) with
        | some length =>
          obtain ⟨inside, last, rest, -, rfl, -⟩ := groupLength_eq_some measured
          have same : (front ++ [token]).length + inside.length =
              front.length + (inside.length + 1) := by
            rw [← position]
            omega
          exact congrArg Except.ok same
        | none =>
          exact ⟨.unmatched, rfl, not_balanced_of_endless opening measured (front ++ [token])⟩

/-! ### One turn -/

/-- A token is inserted where the front ends. -/
theorem insertAt_append (front back : List Token) (token : Token) :
    insertAt (front ++ back) front.length token = .ok (front ++ token :: back) := by
  rw [insertAt, if_pos (by simp), List.take_left, List.drop_left]

/-- The brackets around a part of the tokens are those next to it. -/
theorem standsEnclosed_eq (behind part rest : List Token) {last : Nat}
    (ends : last + 1 = behind.length + part.length) :
    standsEnclosed (behind.reverse ++ (part ++ rest)) behind.length last =
      enclosed behind rest := by
  have after : (behind.reverse ++ (part ++ rest))[last + 1]? = rest.head? := by
    rw [ends, ← List.append_assoc, List.getElem?_append_right (by simp)]
    simp [List.head?_eq_getElem?]
  rw [standsEnclosed, after, enclosed]
  congr 1
  cases behind with
  | nil => rfl
  | cons token behind => simp

namespace Scan

variable {tier : Tier}

/-- A token that is no operator of the tier is passed. -/
theorem turn_pass {token : Token} (outside : inTier tier token = false) (behind rest : List Token) :
    turn tier (ofWalk behind (token :: rest)) = .ok (ofWalk (token :: behind) rest) := by
  have here : tokenAt (behind.reverse ++ token :: rest) behind.length = .ok token :=
    tokenAt_of_getElem? (by simp)
  simp [turn, ofWalk, here, outside, bind, Except.bind, pure, Except.pure]

/-- An operator of the tier between two operands: if brackets stand around the three already, the
operator is passed; otherwise they are put in. -/
theorem turn_operator {op : Operator} (inside : inTier tier (.operator op) = true)
    {left right : List Token} (onLeft : Operand Token.isOpening Token.isClosing left)
    (onRight : Operand Token.isOpening Token.isClosing right) (behind rest : List Token) :
    turn tier (ofWalk (left.reverse ++ behind) (.operator op :: right ++ rest)) =
      .ok (if enclosed behind rest then
        ofWalk (.operator op :: (left.reverse ++ behind)) (right ++ rest)
      else
        ofWalk (.operator op :: (left.reverse ++ .opening :: behind))
          (right ++ .closing :: rest)) := by
  -- Row and position get names, so that rewriting in one of them leaves the other.
  obtain ⟨position, reached⟩ : ∃ position, position = (left.reverse ++ behind).length := ⟨_, rfl⟩
  obtain ⟨tokens, row⟩ : ∃ tokens, tokens =
      (left.reverse ++ behind).reverse ++ .operator op :: (right ++ rest) := ⟨_, rfl⟩
  have parts : tokens = behind.reverse ++ ((left ++ .operator op :: right) ++ rest) := by simp [row]
  have here : tokenAt tokens position = .ok (.operator op) :=
    tokenAt_of_getElem? (by rw [row, reached, ← List.length_reverse]; simp)
  have starts : operandStart tokens position = .ok behind.length := by
    have measured : lengthBehind (left.reverse ++ behind) = some left.reverse.length :=
      operandLength_operand onLeft.reverse behind
    have found := operandStart_spec (left.reverse ++ behind) (.operator op :: (right ++ rest))
    simp only [measured, ← row, ← reached] at found
    rw [found, reached, List.length_append, Nat.add_sub_cancel_left]
  have ends : operandEnd tokens position = .ok (position + right.length) := by
    have measured : lengthAhead (right ++ rest) = some right.length :=
      operandLength_operand onRight rest
    have found := operandEnd_spec (left.reverse ++ behind).reverse (.operator op) (right ++ rest)
    simpa only [measured, ← row, List.length_reverse, ← reached] using found
  have last : position + right.length + 1 =
      behind.length + (left ++ .operator op :: right).length := by
    simp only [reached, List.length_append, List.length_reverse, List.length_cons]
    omega
  have stands : standsEnclosed tokens behind.length (position + right.length) =
      enclosed behind rest := by
    rw [parts, standsEnclosed_eq behind _ rest last]
  have closed : insertAt tokens (position + right.length + 1) .closing =
      .ok ((behind.reverse ++ (left ++ .operator op :: right)) ++ .closing :: rest) := by
    rw [parts, ← List.append_assoc, ← insertAt_append, List.length_append, List.length_reverse,
      last]
  have opened : insertAt ((behind.reverse ++ (left ++ .operator op :: right)) ++ .closing :: rest)
      behind.length .opening = .ok (behind.reverse ++
        .opening :: ((left ++ .operator op :: right) ++ .closing :: rest)) := by
    rw [List.append_assoc, ← insertAt_append, List.length_reverse]
  have walk : ofWalk (left.reverse ++ behind) (.operator op :: right ++ rest) =
      ⟨tokens, position⟩ := by
    rw [ofWalk, reached, row, List.cons_append]
  rw [walk, turn]
  simp only [here, inside, starts, ends, stands, closed, opened, bind, Except.bind, if_true]
  cases enclosed behind rest with
  | true => simp [ofWalk, row, reached, pure, Except.pure]
  | false =>
    simp [ofWalk, reached, pure, Except.pure]
    omega

/-- One token is ahead of the operator before the turn and two after it, so as many are left to
scan: the position has moved by two. -/
example : turn .power ⟨[.name "x", .operator .pow, .name "y"], 1⟩ =
    .ok ⟨[.opening, .name "x", .operator .pow, .name "y", .closing], 3⟩ := rfl

/-- An operator of the tier without an operand on one side. -/
theorem turn_lacking {op : Operator} (inside : inTier tier (.operator op) = true)
    {behind rest : List Token} (lacks : lengthBehind behind = none ∨ lengthAhead rest = none) :
    ∃ misstep, turn tier (ofWalk behind (.operator op :: rest)) = .error misstep ∧
      misstep.DueTo (behind.reverse ++ .operator op :: rest) := by
  have here : tokenAt (behind.reverse ++ .operator op :: rest) behind.length =
      .ok (.operator op) := tokenAt_of_getElem? (by simp)
  have starts := operandStart_spec behind (.operator op :: rest)
  rw [ofWalk, turn]
  simp only [here, inside, bind, Except.bind, if_true]
  cases measured : lengthBehind behind with
  | none =>
    simp only [measured] at starts
    obtain ⟨misstep, missed, due⟩ := starts
    exact ⟨misstep, by rw [missed], due⟩
  | some length =>
    simp only [measured] at starts
    have ends := operandEnd_spec behind.reverse (.operator op) rest
    simp only [lacks.resolve_left (by simp [measured]), List.length_reverse] at ends
    obtain ⟨misstep, missed, due⟩ := ends
    exact ⟨misstep, by rw [starts, missed], due⟩

end Scan

/-- A walk stops at an operator of its tier that lacks an operand. -/
theorem sweep_lacking {tier : Tier} {op : Operator} (inside : inTier tier (.operator op) = true)
    {behind rest : List Token} (lacks : lengthBehind behind = none ∨ lengthAhead rest = none) :
    sweep tier behind (.operator op :: rest) = none := by
  rw [sweep, if_pos inside]
  split
  next left right onLeft onRight => simp [onLeft, onRight] at lacks
  next => rfl

/-- One step of a walk that does not come to a stop: a token is passed, or an operator with its
operands gets brackets and is passed then. -/
inductive Advance (tier : Tier) : (behind ahead nextBehind nextAhead : List Token) → Prop
  | pass (behind : List Token) (token : Token) (rest : List Token) :
      Advance tier behind (token :: rest) (token :: behind) rest
  | enclose {op : Operator} {left right : List Token} (inside : inTier tier (.operator op) = true)
      (onLeft : Operand Token.isOpening Token.isClosing left)
      (onRight : Operand Token.isOpening Token.isClosing right) (behind rest : List Token) :
      Advance tier (left.reverse ++ behind) (.operator op :: right ++ rest)
        (.operator op :: (left.reverse ++ .opening :: behind)) (right ++ .closing :: rest)

/-- A turn on positions is a step of the walk, and so the rest of the sweep is the same; or both the
walk and the turn come to a stop, and the tokens are to blame. -/
theorem turn_cases (tier : Tier) (behind : List Token) (token : Token) (rest : List Token) :
    (∃ nextBehind nextAhead, Advance tier behind (token :: rest) nextBehind nextAhead ∧
      Scan.turn tier (.ofWalk behind (token :: rest)) = .ok (.ofWalk nextBehind nextAhead) ∧
      sweep tier behind (token :: rest) = sweep tier nextBehind nextAhead) ∨
    ∃ misstep, Scan.turn tier (.ofWalk behind (token :: rest)) = .error misstep ∧
      misstep.DueTo (behind.reverse ++ token :: rest) ∧
      sweep tier behind (token :: rest) = none := by
  cases inside : inTier tier token with
  | false =>
    exact .inl ⟨_, _, .pass behind token rest, Scan.turn_pass inside behind rest,
      sweep_pass inside behind rest⟩
  | true =>
    obtain ⟨op, rfl⟩ : ∃ op, token = .operator op := by
      cases token with
      | operator op => exact ⟨op, rfl⟩
      | _ => cases inside
    by_cases lacks : lengthBehind behind = none ∨ lengthAhead rest = none
    · obtain ⟨misstep, stops, due⟩ := Scan.turn_lacking inside lacks
      exact .inr ⟨misstep, stops, due, sweep_lacking inside lacks⟩
    · obtain ⟨leftMeasured, rightMeasured⟩ := not_or.mp lacks
      obtain ⟨_, onBehind⟩ := Option.ne_none_iff_exists'.mp leftMeasured
      obtain ⟨_, onAhead⟩ := Option.ne_none_iff_exists'.mp rightMeasured
      obtain ⟨backwards, others, rfl, onLeft, -⟩ := exists_operand_of_operandLength onBehind
      obtain ⟨right, more, rfl, onRight, -⟩ := exists_operand_of_operandLength onAhead
      obtain ⟨left, rfl⟩ : ∃ left : List Token, backwards = left.reverse :=
        ⟨backwards.reverse, by simp⟩
      have onLeft : Operand Token.isOpening Token.isClosing left := by
        simpa using onLeft.forwards
      have turned := Scan.turn_operator inside onLeft onRight others more
      have swept := sweep_operator inside onLeft onRight others more
      refine .inl ?_
      cases stands : enclosed others more with
      | true =>
        rw [stands, if_pos rfl] at turned swept
        exact ⟨_, _, .pass _ _ _, turned, swept⟩
      | false =>
        rw [stands, if_neg Bool.false_ne_true] at turned swept
        exact ⟨_, _, .enclose inside onLeft onRight others more, turned, swept⟩

end Bracketing

end ParamSweep.Formula
