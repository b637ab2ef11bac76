import Mathlib.Logic.Relation
import ParamSweep.Proofs.Formula.Alternation

/-!
# What the sweeps put in

Whatever the tokens are, a sweep that comes to its end has only put brackets in: opening ones
before the start of an operand, closing ones anywhere. Such an insertion cannot hide that two
tokens do not fit: if the tokens fit with the bracket between them, they fit without it. Nor can
it take away the operand in front of an operator, so every operator that has passed a sweep of
its tier still has one when all sweeps are done.
-/

namespace ParamSweep.Formula

namespace Bracketing

/-- A bracket is put in: an opening one only where an operand starts. -/
inductive Insertion : List Token → List Token → Prop
  | opening (before : List Token) {first : Token} (behind : List Token)
      (starts : first.startsOperand = true) :
      Insertion (before ++ first :: behind) (before ++ .opening :: first :: behind)
  | closing (before behind : List Token) :
      Insertion (before ++ behind) (before ++ .closing :: behind)

/-- Any number of brackets are put in, one after the other. -/
abbrev Insertions := Relation.ReflTransGen Insertion

/-- An operator of a tier follows the end of an operand. -/
def Flanks (tier : Tier) (before token : Token) : Prop :=
  inTier tier token = true → before.awaitsOperand = false

/-- What starts an operand is no operator. -/
theorem inTier_of_startsOperand {token : Token} (tier : Tier)
    (starts : token.startsOperand = true) : inTier tier token = false := by
  cases token <;> first | rfl | cases starts

/-- A law for neighbours holds without a token if it does with the token and passes over it. -/
theorem isChain_of_between {α : Type} {R : α → α → Prop} {before behind : List α} {middle : α}
    (chain : List.IsChain R (before ++ middle :: behind))
    (skip : ∀ left right, R left middle → R middle right → R left right) :
    List.IsChain R (before ++ behind) := by
  obtain ⟨onLeft, onRight, toMiddle⟩ := List.isChain_append.mp chain
  obtain ⟨fromMiddle, rest⟩ := List.isChain_cons.mp onRight
  exact onLeft.append rest fun left isLast right isFirst =>
    skip left right (toMiddle left isLast middle rfl) (fromMiddle right isFirst)

/-- A law for neighbours holds with a further token if it does on both sides of the token. -/
theorem isChain_between {α : Type} {R : α → α → Prop} {before behind : List α} {middle : α}
    (chain : List.IsChain R (before ++ behind)) (toMiddle : ∀ left, R left middle)
    (fromMiddle : ∀ right ∈ behind.head?, R middle right) :
    List.IsChain R (before ++ middle :: behind) := by
  obtain ⟨onLeft, onRight, -⟩ := List.isChain_append.mp chain
  exact onLeft.append (onRight.cons fromMiddle) fun left _ right isFirst =>
    Option.some.inj isFirst ▸ toMiddle left

/-- Tokens that fit once a bracket has been put in fit without it. -/
theorem Insertion.fitting {tokens bracketed : List Token} (insertion : Insertion tokens bracketed)
    (fitting : List.IsChain Token.Fits bracketed) : List.IsChain Token.Fits tokens := by
  cases insertion with
  | opening before behind starts =>
    refine isChain_of_between fitting fun left right toMiddle fromMiddle => ?_
    exact toMiddle.trans fromMiddle
  | closing before behind =>
    refine isChain_of_between fitting fun left right toMiddle fromMiddle => ?_
    exact toMiddle.trans fromMiddle

/-- An operator keeps the operand in front of it when a bracket is put in. -/
theorem Insertion.flanked {tokens bracketed : List Token} {tier : Tier}
    (insertion : Insertion tokens bracketed) (flanked : List.IsChain (Flanks tier) tokens) :
    List.IsChain (Flanks tier) bracketed := by
  cases insertion with
  | opening before behind starts =>
    refine isChain_between flanked (fun left inside => by cases inside) ?_
    intro right isFirst inside
    obtain rfl := Option.some.inj isFirst
    rw [inTier_of_startsOperand tier starts] at inside
    cases inside
  | closing before behind =>
    exact isChain_between flanked (fun left inside => by cases inside) fun right _ _ => rfl

/-- A bracket that is put in is put in behind whatever stands before. -/
theorem Insertion.append_left {tokens bracketed : List Token}
    (insertion : Insertion tokens bracketed) (before : List Token) :
    Insertion (before ++ tokens) (before ++ bracketed) := by
  cases insertion with
  | opening front behind starts =>
    simpa using Insertion.opening (before ++ front) behind starts
  | closing front behind => simpa using Insertion.closing (before ++ front) behind

/-- And in front of whatever follows. -/
theorem Insertion.append_right {tokens bracketed : List Token}
    (insertion : Insertion tokens bracketed) (behind : List Token) :
    Insertion (tokens ++ behind) (bracketed ++ behind) := by
  cases insertion with
  | opening front back starts => simpa using Insertion.opening front (back ++ behind) starts
  | closing front back => simpa using Insertion.closing front (back ++ behind)

/-- Tokens that fit among others once brackets have been put in fit without them. -/
theorem Insertions.fitting {tokens bracketed : List Token}
    (insertions : Insertions tokens bracketed) (before behind : List Token)
    (fitting : List.IsChain Token.Fits (before ++ bracketed ++ behind)) :
    List.IsChain Token.Fits (before ++ tokens ++ behind) := by
  induction insertions with
  | refl => exact fitting
  | tail others last inductionHypothesis =>
    exact inductionHypothesis (((last.append_left before).append_right behind).fitting fitting)

/-- Operators keep the operands in front of them when brackets are put in. -/
theorem Insertions.flanked {tokens bracketed : List Token} {tier : Tier}
    (insertions : Insertions tokens bracketed) (before : List Token)
    (flanked : List.IsChain (Flanks tier) (before ++ tokens)) :
    List.IsChain (Flanks tier) (before ++ bracketed) := by
  induction insertions with
  | refl => exact flanked
  | tail others last inductionHypothesis =>
    exact (last.append_left before).flanked inductionHypothesis

/-- A group that is measured ends with a bracket. -/
theorem groupLength_eq_some {opens closes : Token → Bool} {opened length : Nat}
    {tokens : List Token} (measured : groupLength opens closes opened tokens = some length) :
    ∃ front last rest, tokens = front ++ last :: rest ∧ length = front.length + 1 ∧
      closes last = true := by
  induction tokens generalizing opened length with
  | nil => cases measured
  | cons token tokens inductionHypothesis =>
    have further {deeper : Nat}
        (inner : (groupLength opens closes deeper tokens).map (· + 1) = some length) :
        ∃ front last rest, token :: tokens = front ++ last :: rest ∧ length = front.length + 1 ∧
          closes last = true := by
      obtain ⟨count, counted, rfl⟩ := Option.map_eq_some_iff.mp inner
      obtain ⟨front, last, rest, rfl, rfl, closing⟩ := inductionHypothesis counted
      exact ⟨token :: front, last, rest, rfl, rfl, closing⟩
    rw [groupLength.eq_def] at measured
    dsimp only at measured
    split at measured
    · exact further measured
    · split at measured
      next closing =>
        split at measured
        · cases measured
        · cases measured
          exact ⟨[], token, tokens, rfl, rfl, closing⟩
        · exact further measured
      next => exact further measured

/-- An operand that is measured begins and ends with a number, a name or a bracket. -/
theorem operandLength_eq_some {opens closes : Token → Bool} {tokens : List Token} {length : Nat}
    (measured : operandLength opens closes tokens = some length) :
    (∃ first rest, tokens = first :: rest ∧ (first.isOperand = true ∨ opens first = true)) ∧
      ∃ front last rest, tokens = front ++ last :: rest ∧ length = front.length + 1 ∧
        (last.isOperand = true ∨ closes last = true) := by
  cases tokens with
  | nil => cases measured
  | cons first rest =>
    rw [operandLength] at measured
    split at measured
    next single =>
      cases measured
      exact ⟨⟨first, rest, rfl, .inl single⟩, [], first, rest, rfl, rfl, .inl single⟩
    next =>
      split at measured
      next opening =>
        obtain ⟨front, last, others, cut, counted, closing⟩ := groupLength_eq_some measured
        exact ⟨⟨first, rest, rfl, .inr opening⟩, front, last, others, cut, counted, .inr closing⟩
      next => cases measured

/-- The operand behind the walk: the nearest of its tokens ends an operand, and the furthest
starts one. -/
theorem lengthBehind_eq_some {behind : List Token} {length : Nat}
    (measured : lengthBehind behind = some length) :
    (∃ last rest, behind = last :: rest ∧ last.awaitsOperand = false) ∧
      ∃ front first rest, behind = front ++ first :: rest ∧ length = front.length + 1 ∧
        first.startsOperand = true := by
  obtain ⟨⟨last, rest, nearest, ends⟩, front, first, others, cut, counted, starts⟩ :=
    operandLength_eq_some measured
  refine ⟨⟨last, rest, nearest, ?_⟩, front, first, others, cut, counted, ?_⟩
  · cases last <;> simp_all [Token.isOperand, Token.isClosing, Token.awaitsOperand]
  · cases first <;> simp_all [Token.isOperand, Token.isOpening, Token.startsOperand]

/-- The bracket in front of the operand behind the walk. -/
theorem insertion_behind {behind : List Token} {length : Nat}
    (measured : lengthBehind behind = some length) :
    Insertion behind.reverse
      (behind.take length ++ .opening :: behind.drop length).reverse := by
  obtain ⟨-, front, first, rest, rfl, rfl, starts⟩ := lengthBehind_eq_some measured
  have cut : front ++ first :: rest = (front ++ [first]) ++ rest := by simp
  have put := Insertion.opening rest.reverse front.reverse starts
  rw [cut, List.take_left' (by simp), List.drop_left' (by simp)]
  simpa using put

/-- The bracket behind the operand ahead. -/
theorem insertion_ahead (length : Nat) (ahead : List Token) :
    Insertion ahead (ahead.take length ++ .closing :: ahead.drop length) := by
  have put := Insertion.closing (ahead.take length) (ahead.drop length)
  rwa [List.take_append_drop] at put

/-- A sweep puts in brackets and does nothing else. -/
theorem sweep_insertions {tier : Tier} {behind ahead bracketed : List Token}
    (swept : sweep tier behind ahead = some bracketed) :
    Insertions (behind.reverse ++ ahead) bracketed := by
  fun_induction sweep tier behind ahead with
  | case1 behind =>
    obtain rfl := Option.some.inj swept
    rw [List.append_nil]
  | case2 behind token rest inside left right measuredRight measuredLeft stands hypothesis =>
    simpa using hypothesis swept
  | case3 behind token rest inside left right measuredRight measuredLeft free hypothesis =>
    have opened := (insertion_behind measuredLeft).append_right (token :: rest)
    have closed := (insertion_ahead right rest).append_left
      ((behind.take left ++ .opening :: behind.drop left).reverse ++ [token])
    have others := hypothesis swept
    simp only [List.reverse_cons, List.append_assoc, List.singleton_append] at closed others
    exact .head opened (.head closed others)
  | case4 behind token rest inside lacking => cases swept
  | case5 behind token rest outside hypothesis => simpa using hypothesis swept

/-- The walk passes a token: if the token is an operator of the tier, the one before it ends an
operand. -/
theorem flanked_pass {tier : Tier} {behind : List Token} {token : Token}
    (flanked : List.IsChain (Flanks tier) (.opening :: behind.reverse))
    (ends : inTier tier token = true →
      ∃ last rest, behind = last :: rest ∧ last.awaitsOperand = false) :
    List.IsChain (Flanks tier) (.opening :: (token :: behind).reverse) := by
  cases behind with
  | nil =>
    refine List.isChain_pair.mpr fun inside => ?_
    obtain ⟨last, rest, nothing, -⟩ := ends inside
    cases nothing
  | cons last rest =>
    have next : Flanks tier last token := fun inside => by
      obtain ⟨_, _, same, endsOperand⟩ := ends inside
      cases same
      exact endsOperand
    simp only [List.reverse_cons, List.append_assoc, List.singleton_append] at flanked ⊢
    exact List.isChain_cons_append_cons_cons.mpr ⟨flanked, next, .singleton _⟩

/-- The operators of its own tier that a sweep has passed follow the end of an operand. -/
theorem sweep_flanked {tier : Tier} {behind ahead bracketed : List Token}
    (swept : sweep tier behind ahead = some bracketed)
    (flanked : List.IsChain (Flanks tier) (.opening :: behind.reverse)) :
    List.IsChain (Flanks tier) (.opening :: bracketed) := by
  fun_induction sweep tier behind ahead with
  | case1 behind =>
    obtain rfl := Option.some.inj swept
    exact flanked
  | case2 behind token rest inside left right measuredRight measuredLeft stands hypothesis =>
    exact hypothesis swept (flanked_pass flanked fun _ => (lengthBehind_eq_some measuredLeft).1)
  | case3 behind token rest inside left right measuredRight measuredLeft free hypothesis =>
    have opened : List.IsChain (Flanks tier)
        (.opening :: (behind.take left ++ .opening :: behind.drop left).reverse) :=
      ((insertion_behind measuredLeft).append_left [.opening]).flanked flanked
    refine hypothesis swept (flanked_pass opened fun _ => ?_)
    obtain ⟨⟨last, others, rfl, ends⟩, front, first, furthest, -, rfl, -⟩ :=
      lengthBehind_eq_some measuredLeft
    exact ⟨last, _, rfl, ends⟩
  | case4 behind token rest inside lacking => cases swept
  | case5 behind token rest outside hypothesis =>
    exact hypothesis swept (flanked_pass flanked fun inside => absurd inside outside)

end Bracketing

/-- Bracketing puts brackets in and does nothing else, and afterwards every operator follows the
end of an operand.

Proof: the sweep of a tier finds an operand in front of every operator of the tier, and the
later sweeps leave it there. -/
theorem bracketed?_spec {tokens bracketed : List Token}
    (accepted : bracketed? tokens = some bracketed) :
    Bracketing.balanced tokens = true ∧ Bracketing.Insertions tokens bracketed ∧
      ∀ tier, List.IsChain (Bracketing.Flanks tier) (.opening :: bracketed) := by
  rw [bracketed?] at accepted
  split at accepted
  next balanced =>
    simp only [Tier.strongestFirst, List.foldlM_cons, List.foldlM_nil, Option.bind_eq_bind,
      Option.bind_eq_some_iff] at accepted
    obtain ⟨powers, powersSwept, products, productsSwept, sums, sumsSwept, same⟩ := accepted
    obtain rfl := Option.some.inj same
    have first : Bracketing.Insertions tokens powers := Bracketing.sweep_insertions powersSwept
    have second : Bracketing.Insertions powers products :=
      Bracketing.sweep_insertions productsSwept
    have third : Bracketing.Insertions products sums := Bracketing.sweep_insertions sumsSwept
    have later := second.trans third
    refine ⟨balanced, first.trans later, fun tier => ?_⟩
    cases tier with
    | power =>
      exact Bracketing.Insertions.flanked later [.opening]
        (Bracketing.sweep_flanked powersSwept (.singleton _))
    | product =>
      exact Bracketing.Insertions.flanked third [.opening]
        (Bracketing.sweep_flanked productsSwept (.singleton _))
    | sum => exact Bracketing.sweep_flanked sumsSwept (.singleton _)
  next => cases accepted

end ParamSweep.Formula
