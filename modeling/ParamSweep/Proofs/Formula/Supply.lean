import ParamSweep.Proofs.Formula.Insertion

/-!
# Operators and their neighbours

An operator needs the end of an operand right before it and the start of one right behind it. This
is a matter of its two neighbours alone, whatever the brackets are, and no sweep changes it: a
bracket that is put in stands before the start of an operand or behind the end of one, so it is
never next to an operator that it would supply, nor does it part an operator from its operand.
-/

namespace ParamSweep.Formula

/-- Whether an operand ends with a token. -/
def Token.endsOperand (token : Token) : Bool := token.isOperand || token.isClosing

namespace Bracketing

/-- Every operator of a tier has the end of an operand right before it and the start of one right
behind it, where something may stand before the tokens. -/
def Supplied (tier : Tier) : (before : Option Token) → List Token → Prop
  | _, [] => True
  | before, token :: rest =>
    (inTier tier token = true →
      before.any Token.endsOperand = true ∧ rest.head?.any Token.startsOperand = true) ∧
    Supplied tier (some token) rest

variable {tier : Tier} {before : Option Token} {front rest : List Token} {first last : Token}

/-- What ends an operand is no operator. -/
theorem inTier_of_endsOperand (tier : Tier) {token : Token} (ends : token.endsOperand = true) :
    inTier tier token = false := by
  cases token <;> first | rfl | cases ends

/-- A token that is no operator of the tier needs nothing. -/
theorem supplied_cons {token : Token} (outside : inTier tier token = false) :
    Supplied tier before (token :: rest) ↔ Supplied tier (some token) rest := by
  refine and_iff_right fun inside => ?_
  rw [outside] at inside
  cases inside

/-- What the operators of a tier need before the tokens is no more than the end of an operand. -/
theorem Supplied.of_endsOperand (supplied : Supplied tier before rest)
    (ends : last.endsOperand = true) : Supplied tier (some last) rest := by
  cases rest with
  | nil => trivial
  | cons token rest => exact ⟨fun inside => ⟨ends, (supplied.1 inside).2⟩, supplied.2⟩

/-- What follows a token is supplied with that token before it. -/
theorem Supplied.of_append (supplied : Supplied tier before (front ++ last :: rest)) :
    Supplied tier (some last) rest := by
  induction front generalizing before with
  | nil => exact supplied.2
  | cons token front inductionHypothesis => exact inductionHypothesis supplied.2

/-- What stands up to a token that is no operator of the tier is supplied by itself. -/
theorem Supplied.take (supplied : Supplied tier before (front ++ last :: rest))
    (outside : inTier tier last = false) : Supplied tier before (front ++ [last]) := by
  induction front generalizing before with
  | nil => exact (supplied_cons outside).mpr trivial
  | cons token front inductionHypothesis =>
    refine ⟨fun inside => ?_, inductionHypothesis supplied.2⟩
    obtain ⟨ends, starts⟩ := supplied.1 inside
    refine ⟨ends, ?_⟩
    cases front with
    | nil => exact starts
    | cons next front => exact starts

/-- An opening bracket before the start of an operand neither supplies an operator nor takes
anything from one. -/
theorem supplied_opening (starts : first.startsOperand = true) :
    Supplied tier before (front ++ .opening :: first :: rest) ↔
      Supplied tier before (front ++ first :: rest) := by
  have outside := inTier_of_startsOperand tier starts
  induction front generalizing before with
  | nil =>
    rw [List.nil_append, List.nil_append, supplied_cons rfl, supplied_cons outside,
      supplied_cons outside]
  | cons token front inductionHypothesis =>
    refine and_congr (imp_congr_right fun _ => and_congr_right fun _ => ?_) inductionHypothesis
    cases front with
    | nil => exact iff_of_true rfl starts
    | cons next front => exact Iff.rfl

/-- And so does a closing bracket behind the end of an operand. -/
theorem supplied_closing (ends : last.endsOperand = true) :
    Supplied tier before (front ++ last :: .closing :: rest) ↔
      Supplied tier before (front ++ last :: rest) := by
  have outside := inTier_of_endsOperand tier ends
  induction front generalizing before with
  | nil =>
    rw [List.nil_append, List.nil_append, supplied_cons outside, supplied_cons outside,
      supplied_cons rfl]
    exact ⟨fun supplied => supplied.of_endsOperand ends,
      fun supplied => supplied.of_endsOperand rfl⟩
  | cons token front inductionHypothesis =>
    refine and_congr (imp_congr_right fun _ => and_congr_right fun _ => ?_) inductionHypothesis
    cases front with
    | nil => exact Iff.rfl
    | cons next front => exact Iff.rfl

/-- The operand ahead of the walk: it starts with the nearest token and ends with the furthest. -/
theorem lengthAhead_eq_some {ahead : List Token} {length : Nat}
    (measured : lengthAhead ahead = some length) :
    ahead.head?.any Token.startsOperand = true ∧
      ∃ front last rest, ahead = front ++ last :: rest ∧ length = front.length + 1 ∧
        last.endsOperand = true := by
  obtain ⟨⟨first, others, rfl, starts⟩, front, last, rest, cut, counted, ends⟩ :=
    operandLength_eq_some measured
  refine ⟨?_, front, last, rest, cut, counted, ?_⟩
  · obtain single | opening := starts
    · cases first <;> first | rfl | cases single
    · cases first <;> first | rfl | cases opening
  · obtain single | closing := ends
    · rw [Token.endsOperand, single, Bool.true_or]
    · rw [Token.endsOperand, closing, Bool.or_true]

/-- An operand that is measured backwards begins with its end. -/
theorem head_endsOperand {behind : List Token} {length : Nat}
    (measured : lengthBehind behind = some length) :
    behind.head?.any Token.endsOperand = true := by
  obtain ⟨⟨last, rest, rfl, ends⟩, -⟩ := lengthBehind_eq_some measured
  cases last <;> first | rfl | cases ends

/-- The bracket behind the operand ahead supplies no operator. -/
theorem supplied_ahead {ahead : List Token} {length : Nat}
    (measured : lengthAhead ahead = some length) (front : List Token) :
    Supplied tier before (front ++ (ahead.take length ++ .closing :: ahead.drop length)) ↔
      Supplied tier before (front ++ ahead) := by
  obtain ⟨-, operand, last, rest, rfl, rfl, ends⟩ := lengthAhead_eq_some measured
  have cut : operand ++ last :: rest = (operand ++ [last]) ++ rest := by simp
  rw [cut, List.take_left' (by simp), List.drop_left' (by simp)]
  have same : Supplied tier before ((front ++ operand) ++ last :: .closing :: rest) ↔
      Supplied tier before ((front ++ operand) ++ last :: rest) := supplied_closing ends
  simpa using same

/-- The bracket before the operand behind supplies no operator. -/
theorem supplied_behind {behind : List Token} {length : Nat}
    (measured : lengthBehind behind = some length) (rest : List Token) :
    Supplied tier before
        ((behind.take length ++ .opening :: behind.drop length).reverse ++ rest) ↔
      Supplied tier before (behind.reverse ++ rest) := by
  obtain ⟨-, operand, first, others, rfl, rfl, starts⟩ := lengthBehind_eq_some measured
  have cut : operand ++ first :: others = (operand ++ [first]) ++ others := by simp
  rw [cut, List.take_left' (by simp), List.drop_left' (by simp)]
  have same : Supplied tier before
        (others.reverse ++ .opening :: first :: (operand.reverse ++ rest)) ↔
      Supplied tier before (others.reverse ++ first :: (operand.reverse ++ rest)) :=
    supplied_opening starts
  simpa using same

/-- A sweep supplies no operator of any tier, and takes nothing from one. -/
theorem sweep_supplied_iff {other : Tier} {behind ahead bracketed : List Token}
    (swept : sweep tier behind ahead = some bracketed) :
    Supplied other before bracketed ↔ Supplied other before (behind.reverse ++ ahead) := by
  fun_induction sweep tier behind ahead with
  | case1 behind =>
    obtain rfl := Option.some.inj swept
    rw [List.append_nil]
  | case2 behind token rest inside left right measuredRight measuredLeft stands hypothesis =>
    simpa using hypothesis swept
  | case3 behind token rest inside left right measuredRight measuredLeft free hypothesis =>
    let opened := (behind.take left ++ .opening :: behind.drop left).reverse
    have ahead : Supplied other before ((opened ++ [token]) ++
        (rest.take right ++ .closing :: rest.drop right)) ↔
          Supplied other before ((opened ++ [token]) ++ rest) :=
      supplied_ahead measuredRight (opened ++ [token])
    have before : Supplied other before (opened ++ token :: rest) ↔
        Supplied other before (behind.reverse ++ token :: rest) :=
      supplied_behind measuredLeft (token :: rest)
    rw [hypothesis swept, List.reverse_cons, ahead, ← before]
    simp [opened]
  | case4 behind token rest inside lacking => cases swept
  | case5 behind token rest outside hypothesis => simpa using hypothesis swept

/-- A sweep that comes to its end has found the operators of its tier supplied. -/
theorem supplied_of_sweep {behind ahead bracketed : List Token}
    (swept : sweep tier behind ahead = some bracketed) : Supplied tier behind.head? ahead := by
  fun_induction sweep tier behind ahead with
  | case1 behind => trivial
  | case2 behind token rest inside left right measuredRight measuredLeft stands hypothesis =>
    exact ⟨fun _ => ⟨head_endsOperand measuredLeft, (lengthAhead_eq_some measuredRight).1⟩,
      hypothesis swept⟩
  | case3 behind token rest inside left right measuredRight measuredLeft free hypothesis =>
    have others := (supplied_ahead measuredRight []).mp (hypothesis swept)
    exact ⟨fun _ => ⟨head_endsOperand measuredLeft, (lengthAhead_eq_some measuredRight).1⟩, others⟩
  | case4 behind token rest inside lacking => cases swept
  | case5 behind token rest outside hypothesis =>
    exact (supplied_cons (by simpa using outside)).mpr (hypothesis swept)

/-- All operators are supplied if every one of them is. -/
theorem supplied_iff {tokens : List Token} :
    (∀ tier, Supplied tier before tokens) ↔
      ∀ front op rest, tokens = front ++ .operator op :: rest →
        (front.getLast?.or before).any Token.endsOperand = true ∧
          rest.head?.any Token.startsOperand = true := by
  induction tokens generalizing before with
  | nil => simp [Supplied]
  | cons token tokens inductionHypothesis =>
    have others := @inductionHypothesis (some token)
    have shift (front : List Token) :
        (token :: front).getLast?.or before = front.getLast?.or (some token) := by
      cases front with
      | nil => rfl
      | cons next front => simp [List.getLast?_cons]
    constructor
    · intro supplied front op rest parts
      cases front with
      | nil =>
        obtain ⟨rfl, rfl⟩ := List.cons.inj parts
        exact (supplied op.tier).1 (by simp [inTier])
      | cons first front =>
        obtain ⟨rfl, rfl⟩ := List.cons.inj parts
        rw [shift]
        exact others.mp (fun tier => (supplied tier).2) front op rest rfl
    · intro each tier
      refine ⟨fun inside => ?_, others.mpr ?_ tier⟩
      · cases token with
        | operator op => exact each [] op tokens rfl
        | _ => cases inside
      · rintro front op rest rfl
        rw [← shift]
        exact each (token :: front) op rest rfl

/-- A bracket that closes behind the tokens supplies none of them. -/
theorem supplied_concat_closing {tokens : List Token} :
    Supplied tier before (tokens ++ [.closing]) ↔ Supplied tier before tokens := by
  induction tokens generalizing before with
  | nil => exact iff_of_true ((supplied_cons rfl).mpr trivial) trivial
  | cons token tokens inductionHypothesis =>
    refine and_congr (imp_congr_right fun _ => and_congr_right fun _ => ?_) inductionHypothesis
    cases tokens with
    | nil => exact Iff.rfl
    | cons next tokens => exact Iff.rfl

end Bracketing

/-- Where bracketing comes to its end, all operators are supplied. -/
theorem supplied_of_bracketed? {tokens bracketed : List Token}
    (accepted : bracketed? tokens = some bracketed) (tier : Tier) :
    Bracketing.Supplied tier none tokens := by
  rw [bracketed?] at accepted
  split at accepted
  next balanced =>
    simp only [Tier.strongestFirst, List.foldlM_cons, List.foldlM_nil, Option.bind_eq_bind,
      Option.bind_eq_some_iff] at accepted
    obtain ⟨powers, powersSwept, products, productsSwept, sums, sumsSwept, -⟩ := accepted
    have first (other : Tier) : Bracketing.Supplied other none powers →
        Bracketing.Supplied other none tokens := (Bracketing.sweep_supplied_iff powersSwept).mp
    have second (other : Tier) : Bracketing.Supplied other none products →
        Bracketing.Supplied other none powers := (Bracketing.sweep_supplied_iff productsSwept).mp
    cases tier with
    | power => exact Bracketing.supplied_of_sweep powersSwept
    | product => exact first _ (Bracketing.supplied_of_sweep productsSwept)
    | sum => exact first _ (second _ (Bracketing.supplied_of_sweep sumsSwept))
  next => cases accepted

end ParamSweep.Formula
