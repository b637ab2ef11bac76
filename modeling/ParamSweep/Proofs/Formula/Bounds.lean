import Mathlib.Algebra.GroupWithZero.Nat
import ParamSweep.Proofs.Formula.Enclosure
import ParamSweep.Proofs.Formula.Positions

/-!
# Sweeps end, and stay inside of the tokens

A sweep makes the tokens longer while it goes through them. When it puts brackets in, one of them
goes before the position and the position moves on with it, the other one goes behind. So as many
tokens are still to scan as before, and what has become less is the number of operators of the tier
among them. The two numbers together become less in every turn, and so a sweep over any tokens ends.

On the way it never reads or inserts outside of the tokens, and never counts a group as closed that
was not open, whatever the tokens are. In balanced tokens every group whose end it looks for has
one; and brackets around an operator and its operands leave balanced tokens balanced, so the same
is true in the next turn and in the next sweep.
-/

namespace ParamSweep.Formula

namespace Bracketing

variable {tier : Tier}

namespace Scan

/-- How many tokens are still to scan. -/
def remaining (scan : Scan) : Nat := scan.tokens.length - scan.position

/-- How many operators of a tier are among them. -/
def unvisited (tier : Tier) (scan : Scan) : Nat :=
  (scan.tokens.drop scan.position).countP (inTier tier)

/-- The sweep of a tier from a position on takes so many turns and comes to this. -/
inductive Ends (tier : Tier) : Scan → (turns : Nat) → Except Misstep (List Token) → Prop
  | finished {scan : Scan} (behind : scan.tokens.length ≤ scan.position) :
      Ends tier scan 0 (.ok scan.tokens)
  | stopped {scan : Scan} {misstep : Misstep} (ahead : scan.position < scan.tokens.length)
      (stops : scan.turn tier = .error misstep) : Ends tier scan 1 (.error misstep)
  | turned {scan next : Scan} {turns : Nat} {result : Except Misstep (List Token)}
      (ahead : scan.position < scan.tokens.length) (goesOn : scan.turn tier = .ok next)
      (others : Ends tier next turns result) : Ends tier scan (turns + 1) result

/-- What a turn may come to. It goes wrong only where the tokens are to blame. Otherwise the tokens
are as balanced as they were; and one token is passed, or brackets are put in around the position,
and then as many tokens are still to scan as before and one operator less. -/
def Allows (tier : Tier) (scan : Scan) : Except Misstep Scan → Prop
  | .error misstep => misstep.DueTo scan.tokens
  | .ok next =>
    (Balanced next.tokens ↔ Balanced scan.tokens) ∧
      (next = ⟨scan.tokens, scan.position + 1⟩ ∨
        (∃ front operation back, scan.tokens = front ++ (operation ++ back) ∧
          next = ⟨front ++ .opening :: (operation ++ .closing :: back), scan.position + 2⟩ ∧
          front.length < scan.position ∧ scan.position < front.length + operation.length) ∧
        next.remaining = scan.remaining ∧ next.unvisited tier + 1 = scan.unvisited tier)

/-- What remains of a scan is what is ahead of the walk. -/
@[simp] theorem remaining_ofWalk (behind ahead : List Token) :
    (ofWalk behind ahead).remaining = ahead.length := by
  simp [remaining, ofWalk]

/-- The operators that it has not visited are those ahead. -/
@[simp] theorem unvisited_ofWalk (behind ahead : List Token) :
    (ofWalk behind ahead).unvisited tier = ahead.countP (inTier tier) := by
  have cut : (behind.reverse ++ ahead).drop behind.length = ahead := List.drop_left' (by simp)
  rw [unvisited, ofWalk, cut]

/-- Where a token stands, a walk stands in front of it. -/
theorem exists_ofWalk {tokens : List Token} {position : Nat} {token : Token}
    (here : tokens[position]? = some token) :
    ∃ behind ahead, (⟨tokens, position⟩ : Scan) = ofWalk behind (token :: ahead) := by
  obtain ⟨within, rfl⟩ := List.getElem?_eq_some_iff.mp here
  refine ⟨(tokens.take position).reverse, tokens.drop (position + 1), ?_⟩
  simp [ofWalk, Nat.min_eq_left within.le]

end Scan

/-- Behind an operator of the tier there is one less, and the bracket behind its operand is none. -/
theorem countP_enclose {op : Operator} (inside : inTier tier (.operator op) = true)
    (right rest : List Token) :
    (right ++ .closing :: rest).countP (inTier tier) + 1 =
      (.operator op :: right ++ rest).countP (inTier tier) := by
  have closing : ¬ inTier tier .closing = true := Bool.false_ne_true
  rw [List.cons_append, List.countP_cons_of_pos inside, List.countP_append, List.countP_append,
    List.countP_cons_of_neg closing]

section Advance

variable {behind ahead nextBehind nextAhead : List Token}

/-- A step of the walk leaves the tokens as balanced as they were. -/
theorem Advance.balanced_iff (advance : Advance tier behind ahead nextBehind nextAhead) :
    Balanced (nextBehind.reverse ++ nextAhead) ↔ Balanced (behind.reverse ++ ahead) := by
  cases advance with
  | pass behind token rest => simp
  | @enclose op left right inside onLeft onRight behind rest =>
    have segment : Nested Token.isOpening Token.isClosing (left ++ ([.operator op] ++ right)) :=
      .append onLeft.nested (.append (.plain rfl rfl) onRight.nested)
    simpa using balanced_around segment behind.reverse rest

/-- A step of a walk is one that a scan may take. -/
theorem Advance.allows (advance : Advance tier behind ahead nextBehind nextAhead) :
    (Scan.ofWalk behind ahead).Allows tier (.ok (.ofWalk nextBehind nextAhead)) := by
  refine ⟨advance.balanced_iff, ?_⟩
  cases advance with
  | pass behind token rest => exact .inl (by simp [Scan.ofWalk])
  | @enclose op left right inside onLeft onRight behind rest =>
    have leftSome : 0 < left.length := onLeft.length_pos
    have rightSome : 0 < right.length := onRight.length_pos
    refine .inr ⟨⟨behind.reverse, left ++ .operator op :: right, rest, ?_, ?_, ?_, ?_⟩, ?_, ?_⟩
    · simp [Scan.ofWalk]
    · simp [Scan.ofWalk]
      omega
    · simp [Scan.ofWalk, leftSome]
    · simp [Scan.ofWalk]
      omega
    · simp
      omega
    · simpa using countP_enclose inside right rest

/-- A step of the walk leaves less to do: a token less, or an operator of the tier. -/
theorem Advance.less (advance : Advance tier behind ahead nextBehind nextAhead) :
    nextAhead.length + nextAhead.countP (inTier tier) <
      ahead.length + ahead.countP (inTier tier) := by
  cases advance with
  | pass behind token rest =>
    rw [List.length_cons, List.countP_cons]
    omega
  | @enclose op left right inside onLeft onRight behind rest =>
    have fewer := countP_enclose inside right rest
    have asLong : (right ++ .closing :: rest).length = (.operator op :: right ++ rest).length := by
      simp
      omega
    omega

end Advance

/-- What sweeps may come to: to something that is the fault of the tokens, or to others that are as
balanced as they were. -/
def Sound (tokens : List Token) : Except Misstep (List Token) → Prop
  | .error misstep => misstep.DueTo tokens
  | .ok swept => Balanced swept ↔ Balanced tokens

/-- Whether a misstep is due to tokens depends only on whether they are balanced. -/
theorem Misstep.DueTo.congr {misstep : Misstep} {tokens others : List Token}
    (same : Balanced others ↔ Balanced tokens) (due : misstep.DueTo others) :
    misstep.DueTo tokens := by
  cases misstep with
  | unmatched => exact mt same.mpr due
  | _ => exact due

/-- So does whether a result is sound for them. -/
theorem Sound.congr {result : Except Misstep (List Token)} {tokens others : List Token}
    (same : Balanced others ↔ Balanced tokens) (sound : Sound others result) :
    Sound tokens result := by
  cases result with
  | error misstep => exact Misstep.DueTo.congr same sound
  | ok swept => exact Iff.trans sound same

/-- A sweep has one end. -/
theorem Scan.Ends.unique {scan : Scan} {turns others : Nat}
    {result last : Except Misstep (List Token)} (first : scan.Ends tier turns result)
    (second : scan.Ends tier others last) : others = turns ∧ last = result := by
  induction first generalizing others last with
  | finished behind =>
    cases second with
    | finished => exact ⟨rfl, rfl⟩
    | stopped ahead | turned ahead => exact absurd ahead behind.not_gt
  | stopped ahead stops =>
    cases second with
    | finished behind => exact absurd ahead behind.not_gt
    | stopped _ also =>
      obtain rfl := Except.error.inj (stops.symm.trans also)
      exact ⟨rfl, rfl⟩
    | turned _ also => cases stops.symm.trans also
  | turned ahead goesOn _ inductionHypothesis =>
    cases second with
    | finished behind => exact absurd ahead behind.not_gt
    | stopped _ also => cases goesOn.symm.trans also
    | turned _ also rest =>
      obtain rfl := Except.ok.inj (goesOn.symm.trans also)
      obtain ⟨rfl, rfl⟩ := inductionHypothesis rest
      exact ⟨rfl, rfl⟩

/-- The sweep of a tier from where a walk stands comes to an end, and to what the walk comes to.

Proof: by induction on the number of tokens ahead and of operators of the tier among them. -/
theorem exists_ends (tier : Tier) (behind ahead : List Token) :
    ∃ turns result, (Scan.ofWalk behind ahead).Ends tier turns result ∧
      turns ≤ ahead.length + ahead.countP (inTier tier) ∧
      result.toOption = sweep tier behind ahead ∧ Sound (behind.reverse ++ ahead) result := by
  induction size : ahead.length + ahead.countP (inTier tier) using Nat.strong_induction_on
    generalizing behind ahead with
  | _ size inductionHypothesis =>
    subst size
    cases ahead with
    | nil =>
      refine ⟨0, _, .finished (by simp [Scan.ofWalk]), Nat.le_refl _, ?_, Iff.rfl⟩
      simp [Scan.ofWalk, sweep, Except.toOption]
    | cons token rest =>
      have within : (Scan.ofWalk behind (token :: rest)).position <
          (Scan.ofWalk behind (token :: rest)).tokens.length := by simp [Scan.ofWalk]
      obtain ⟨nextBehind, nextAhead, advance, turned, same⟩ | ⟨misstep, stops, due, stopped⟩ :=
        turn_cases tier behind token rest
      · obtain ⟨turns, result, ends, few, result_eq, sound⟩ :=
          inductionHypothesis _ advance.less nextBehind nextAhead rfl
        refine ⟨turns + 1, result, .turned within turned ends, ?_, ?_, ?_⟩
        · exact Nat.succ_le_of_lt (few.trans_lt advance.less)
        · rw [result_eq, same]
        · exact sound.congr advance.balanced_iff
      · refine ⟨1, _, .stopped within stops, ?_, stopped.symm, due⟩
        rw [List.length_cons]
        omega

/-- The sweeps of some tiers one after the other come to this. -/
inductive SweepsTo : List Tier → List Token → Except Misstep (List Token) → Prop
  | finished {tokens : List Token} : SweepsTo [] tokens (.ok tokens)
  | stopped {tier : Tier} {tiers : List Tier} {tokens : List Token} {turns : Nat}
      {misstep : Misstep} (stops : Scan.Ends tier ⟨tokens, 0⟩ turns (.error misstep)) :
      SweepsTo (tier :: tiers) tokens (.error misstep)
  | swept {tier : Tier} {tiers : List Tier} {tokens next : List Token} {turns : Nat}
      {result : Except Misstep (List Token)} (ends : Scan.Ends tier ⟨tokens, 0⟩ turns (.ok next))
      (others : SweepsTo tiers next result) : SweepsTo (tier :: tiers) tokens result

/-- One sweep after the other comes to an end, since each does. -/
theorem exists_sweepsTo (tiers : List Tier) (tokens : List Token) :
    ∃ result, SweepsTo tiers tokens result ∧
      result.toOption = tiers.foldlM bracketTier tokens ∧ Sound tokens result := by
  induction tiers generalizing tokens with
  | nil => exact ⟨_, .finished, rfl, Iff.rfl⟩
  | cons tier tiers inductionHypothesis =>
    obtain ⟨turns, result, ends, -, same, sound⟩ := exists_ends tier [] tokens
    have first : bracketTier tokens tier = result.toOption := same.symm
    cases result with
    | error misstep => exact ⟨_, .stopped ends, by rw [List.foldlM_cons, first]; rfl, sound⟩
    | ok swept =>
      obtain ⟨last, others, result_eq, lastSound⟩ := inductionHypothesis swept
      refine ⟨last, .swept ends others, ?_, lastSound.congr sound⟩
      rw [List.foldlM_cons, first, result_eq]
      rfl

/-- A token put in between others is one more, and counts if it counts on its own. -/
theorem countP_insert (counts : Token → Bool) (length : Nat) (token : Token) (tokens : List Token) :
    (tokens.take length ++ token :: tokens.drop length).countP counts =
      (token :: tokens).countP counts := by
  have parts : (tokens.take length ++ tokens.drop length).countP counts = tokens.countP counts := by
    rw [List.take_append_drop]
  rw [List.countP_append] at parts
  rw [List.countP_append, List.countP_cons, List.countP_cons]
  omega

/-- An inserted token is one token more. -/
theorem length_insert (length : Nat) (token : Token) (tokens : List Token) :
    (tokens.take length ++ token :: tokens.drop length).length = tokens.length + 1 := by
  rw [List.length_append, List.length_cons, List.length_take, List.length_drop]
  omega

/-- A sweep puts in at most two brackets for each operator of its tier. -/
theorem length_of_sweep {behind ahead bracketed : List Token}
    (swept : sweep tier behind ahead = some bracketed) :
    bracketed.length ≤ behind.length + ahead.length + 2 * ahead.countP (inTier tier) := by
  fun_induction sweep tier behind ahead with
  | case1 behind =>
    obtain rfl := Option.some.inj swept
    simp
  | case2 behind token rest inside left right measuredRight measuredLeft stands hypothesis =>
    have others := hypothesis swept
    rw [List.length_cons] at others
    rw [List.length_cons, List.countP_cons]
    omega
  | case3 behind token rest inside left right measuredRight measuredLeft free hypothesis =>
    have others := hypothesis swept
    have closing : ¬ inTier tier .closing = true := Bool.false_ne_true
    rw [List.length_cons, length_insert, length_insert, countP_insert,
      List.countP_cons_of_neg closing] at others
    rw [List.length_cons, List.countP_cons_of_pos inside]
    omega
  | case4 behind token rest inside lacking => cases swept
  | case5 behind token rest outside hypothesis =>
    have others := hypothesis swept
    rw [List.length_cons] at others
    rw [List.length_cons, List.countP_cons_of_neg outside]
    omega

/-- Brackets that are put in are no operators of a tier. -/
theorem Insertions.countP_inTier {tokens bracketed : List Token}
    (insertions : Insertions tokens bracketed) (tier : Tier) :
    bracketed.countP (inTier tier) = tokens.countP (inTier tier) := by
  have plain (token : Token) : (inTier tier token && !isBracket token) = inTier tier token := by
    cases token <;> simp [inTier, isBracket, Token.isOpening, Token.isClosing]
  have kept := congrArg (List.countP (inTier tier)) insertions.filter
  simpa only [List.countP_filter, plain] using kept

/-- So sweeps put in at most two brackets for each operator of their tiers. -/
theorem length_of_sweeps {tiers : List Tier} {tokens bracketed : List Token}
    (swept : tiers.foldlM bracketTier tokens = some bracketed) :
    bracketed.length ≤
      tokens.length + 2 * (tiers.map fun tier => tokens.countP (inTier tier)).sum := by
  induction tiers generalizing tokens with
  | nil =>
    obtain rfl := Option.some.inj swept
    simp
  | cons tier tiers inductionHypothesis =>
    obtain ⟨next, first, others⟩ := Option.bind_eq_some_iff.mp swept
    have insertions : Insertions tokens next := sweep_insertions first
    have added := length_of_sweep first
    have rest := inductionHypothesis others
    simp only [insertions.countP_inTier] at rest
    rw [List.length_nil] at added
    rw [List.map_cons, List.sum_cons]
    omega

/-- Every operator is of one of the tiers. -/
theorem sum_countP_inTier (tokens : List Token) :
    (Tier.strongestFirst.map fun tier => tokens.countP (inTier tier)).sum =
      tokens.countP fun token => token.operator?.isSome := by
  induction tokens with
  | nil => rfl
  | cons token tokens inductionHypothesis =>
    have own : (if inTier .power token then 1 else 0) + (if inTier .product token then 1 else 0) +
        (if inTier .sum token then 1 else 0) = if token.operator?.isSome then 1 else 0 := by
      cases token with
      | operator op => cases op <;> rfl
      | _ => rfl
    simp only [Tier.strongestFirst, List.map_cons, List.map_nil, List.sum_cons, List.sum_nil,
      List.countP_cons] at inductionHypothesis ⊢
    omega

end Bracketing

open Bracketing in
/-- The sweeps end and stay inside of the tokens, whatever the tokens are.

Looking for the partner of a bracket reads at positions of the tokens only and never counts below
zero: it finds the partner, or comes to the end of tokens that are not balanced. A turn of a sweep
at any position goes wrong only because an operand is lacking or, again, the tokens are not
balanced. Otherwise it passes a token, or puts brackets in around the position, after which as many
tokens are still to scan as before but one operator of the tier less. So every sweep has one end,
after no more turns than there are tokens and operators of its tier, and it ends with what the walk
comes to. Where the brackets have been checked they stay balanced, and nothing goes wrong in any of
the three sweeps but that an operand is lacking. The result has at most two tokens more for each
operator. -/
theorem sweeps_stay_inside (tokens : List Token) :
    (∀ position, tokens[position]? = some .opening →
      Meets tokens .closing (closingPartner tokens position)) ∧
    (∀ position, tokens[position]? = some .closing →
      Meets tokens .opening (openingPartner tokens position)) ∧
    (∀ tier position, position < tokens.length →
      Scan.Allows tier ⟨tokens, position⟩ (Scan.turn tier ⟨tokens, position⟩)) ∧
    (∀ tier, ∃ turns result, Scan.Ends tier ⟨tokens, 0⟩ turns result ∧
      (∀ others last, Scan.Ends tier ⟨tokens, 0⟩ others last → others = turns ∧ last = result) ∧
      turns ≤ tokens.length + tokens.countP (inTier tier) ∧
      result.toOption = bracketTier tokens tier ∧ Sound tokens result) ∧
    (balanced tokens = true → ∃ result, SweepsTo Tier.strongestFirst tokens result ∧
      result.toOption = bracketed? tokens ∧ Sound tokens result ∧
      ∀ misstep, result = .error misstep → misstep = .lacking) ∧
    ∀ bracketed, bracketed? tokens = some bracketed →
      bracketed.length ≤ tokens.length + 2 * tokens.countP fun token => token.operator?.isSome := by
  refine ⟨fun position here => ?_, fun position here => ?_, fun tier position within => ?_,
    fun tier => ?_, fun checked => ?_, fun bracketed accepted => ?_⟩
  · obtain ⟨behind, ahead, walk⟩ := Scan.exists_ofWalk here
    obtain ⟨rfl, rfl⟩ := Scan.mk.inj walk
    have met := meets_closingPartner behind.reverse ahead
    rwa [List.length_reverse] at met
  · obtain ⟨behind, ahead, walk⟩ := Scan.exists_ofWalk here
    obtain ⟨rfl, rfl⟩ := Scan.mk.inj walk
    have met := meets_openingPartner behind ahead
    rwa [List.reverse_cons, List.append_assoc] at met
  · obtain ⟨behind, rest, walk⟩ := Scan.exists_ofWalk (List.getElem?_eq_getElem within)
    rw [walk]
    obtain ⟨nextBehind, nextAhead, advance, turned, -⟩ | ⟨misstep, stops, due, -⟩ :=
      turn_cases tier behind tokens[position] rest
    · rw [turned]
      exact advance.allows
    · rw [stops]
      exact due
  · obtain ⟨turns, result, ends, few, same, sound⟩ := exists_ends tier [] tokens
    exact ⟨turns, result, ends, fun _ _ also => ends.unique also, few, same, sound⟩
  · obtain ⟨result, sweeps, same, sound⟩ := exists_sweepsTo Tier.strongestFirst tokens
    refine ⟨result, sweeps, ?_, sound, ?_⟩
    · rw [same, bracketed?, if_pos checked]
    · -- Of balanced tokens nothing can be wrong but that an operand is lacking.
      rintro misstep rfl
      cases misstep with
      | lacking => rfl
      | unmatched => exact absurd (balanced_iff.mp checked) sound
      | uncounted | outside => exact sound.elim
  · rw [bracketed?] at accepted
    split at accepted
    next =>
      rw [← sum_countP_inTier]
      exact length_of_sweeps accepted
    next => cases accepted

end ParamSweep.Formula
