import Mathlib.Data.List.Chain
import ParamSweep.Proofs.Formula.Bracketing

/-!
# Which tokens are those of a term

Operands and operators take turns. Between two neighbours this is a matter of the two alone: an
opening bracket or an operator is followed by the start of an operand, everything else is not.
With a bracket put before the first token and one behind the last, the same law says that
tokens neither begin nor end with an operator and that no group is empty.

Tokens that obey this law, with every bracket in its pair, are the tokens of a term, and of one
in which the ranks decide what belongs together. The term is built while the tokens are read:
an operator and its right operand are attached to the right end of what stands before them, as
far down as the ranks demand.
-/

namespace ParamSweep.Formula

namespace Token

/-- Whether an operand starts right behind a token. -/
def awaitsOperand : Token → Bool
  | opening | operator _ => true
  | _ => false

/-- Whether an operand starts with a token. -/
def startsOperand : Token → Bool
  | opening | number _ | name _ => true
  | _ => false

/-- Whether a token may follow another. -/
def Fits (before token : Token) : Prop := before.awaitsOperand = token.startsOperand

end Token

/-- Every bracket has its partner and every token fits to the one before it, where the tokens
as a whole stand as in a group. -/
structure WellFormed (tokens : List Token) : Prop where
  balanced : Bracketing.balanced tokens = true
  fitting : List.IsChain Token.Fits (.opening :: tokens ++ [.closing])

namespace Term

/-- Where an operand may stand, the tokens of a term fit. -/
theorem fitting_tokens (term : Term) {before behind : Token}
    (awaits : before.awaitsOperand = true) (ends : behind.startsOperand = false) :
    List.IsChain Token.Fits (before :: term.tokens ++ [behind]) := by
  induction term generalizing before behind with
  | number value => exact .cons_cons awaits (.cons_cons ends.symm (.singleton _))
  | name text => exact .cons_cons awaits (.cons_cons ends.symm (.singleton _))
  | group inner inductionHypothesis =>
    have inside : List.IsChain Token.Fits (.opening :: inner.tokens ++ [.closing]) :=
      inductionHypothesis rfl rfl
    have leave : List.IsChain Token.Fits [.closing, behind] := List.isChain_pair.mpr ends.symm
    have around : List.IsChain Token.Fits ((.opening :: inner.tokens) ++ .closing :: [behind]) :=
      List.isChain_split.mpr ⟨inside, leave⟩
    simp only [tokens, List.cons_append, List.append_assoc, List.nil_append] at around ⊢
    exact List.IsChain.cons_cons awaits around
  | operation op left right leftHypothesis rightHypothesis =>
    have onLeft : List.IsChain Token.Fits (before :: left.tokens ++ [.operator op]) :=
      leftHypothesis awaits rfl
    have onRight : List.IsChain Token.Fits (.operator op :: right.tokens ++ [behind]) :=
      rightHypothesis rfl ends
    have joined := List.isChain_split.mpr ⟨onLeft, onRight⟩
    simpa [tokens] using joined

/-- The tokens of a term are well formed, whatever the ranks of its operators. -/
theorem wellFormed_tokens (term : Term) : WellFormed term.tokens where
  balanced := by
    rw [← term.spelled_zero false]
    exact Bracketing.balanced_nested (term.nested_spelled 0 false)
  fitting := term.fitting_tokens rfl rfl

/-- A term with an operator and an operand attached to its right end, as far down as operators
that bind less strongly than the new one stand there. -/
def extend : (term : Term) → (op : Operator) → (operand : Term) → Term
  | operation own left right, op, operand =>
    if op.rank < own.rank then operation own left (right.extend op operand)
    else operation op (operation own left right) operand
  | term, op, operand => operation op term operand

/-- An operator and an operand are added behind the tokens of a term. -/
theorem tokens_extend (term : Term) (op : Operator) (operand : Term) :
    (term.extend op operand).tokens = term.tokens ++ .operator op :: operand.tokens := by
  induction term with
  | number value => rfl
  | name text => rfl
  | group inner inductionHypothesis => rfl
  | operation own left right leftHypothesis rightHypothesis =>
    simp only [extend]
    split
    · simp [tokens, rightHypothesis]
    · rfl

/-- Attaching to the right end keeps every operator where its rank puts it.

Proof: by induction on the right end. An operator that binds less strongly than the new one
keeps its place, and the new one goes into its right operand; any other operator becomes part of
the left operand of the new one. -/
theorem Layered.extend {term operand : Term} {bound : Nat} {op : Operator}
    (layered : term.Layered bound) (allowed : op.rank < bound) (tight : operand.Layered 0) :
    (term.extend op operand).Layered bound := by
  have onRight : operand.Layered op.rank := tight.widen (Nat.zero_le _)
  induction term generalizing bound with
  | number value => exact ⟨allowed, trivial, onRight⟩
  | name text => exact ⟨allowed, trivial, onRight⟩
  | group inner inductionHypothesis => exact ⟨allowed, layered, onRight⟩
  | operation own left right leftHypothesis rightHypothesis =>
    obtain ⟨ownAllowed, leftLayered, rightLayered⟩ := layered
    simp only [Term.extend]
    split
    next tighter => exact ⟨ownAllowed, leftLayered, rightHypothesis rightLayered tighter⟩
    next looser =>
      have within : own.rank < op.rank + 1 := by omega
      exact ⟨allowed, ⟨within, leftLayered, rightLayered⟩, onRight⟩

end Term

/-- What stands in an open group before the operand that is still to come. -/
inductive Pending
  | nothing
  | operation (left : Term) (op : Operator)

namespace Pending

/-- The tokens of what is pending. -/
def tokens : Pending → List Token
  | nothing => []
  | operation left op => left.tokens ++ [.operator op]

/-- Whether the ranks decide what belongs together. -/
def Layered : Pending → Prop
  | nothing => True
  | operation left _ => left.Layered 3

/-- The operand has come. -/
def attach (operand : Term) : Pending → Term
  | nothing => operand
  | operation left op => left.extend op operand

/-- The operand comes behind what is pending. -/
theorem tokens_attach (operand : Term) (pending : Pending) :
    (pending.attach operand).tokens = pending.tokens ++ operand.tokens := by
  cases pending with
  | nothing => rfl
  | operation left op => simp [attach, tokens, Term.tokens_extend]

/-- An operand without operators outside of its brackets keeps the ranks in order. -/
theorem Layered.attach {pending : Pending} (layered : pending.Layered) {operand : Term}
    (tight : operand.Layered 0) : (pending.attach operand).Layered 3 := by
  cases pending with
  | nothing => exact tight.widen (Nat.zero_le _)
  | operation left op => exact Term.Layered.extend layered op.rank_lt_three tight

/-- The tokens of open groups, the innermost group first. -/
def outerTokens : List Pending → List Token
  | [] => []
  | pending :: outer => outerTokens outer ++ pending.tokens ++ [.opening]

end Pending

/-- How far the tokens have been read: an operand is awaited, or a term of the innermost open
group is there and may go on. -/
inductive Progress
  | awaiting (outer : List Pending) (pending : Pending)
  | holding (outer : List Pending) (term : Term)

namespace Progress

/-- The groups that are open. -/
def outer : Progress → List Pending
  | awaiting outer _ | holding outer _ => outer

/-- Whether an operand is to come next. -/
def awaitsOperand : Progress → Bool
  | awaiting _ _ => true
  | holding _ _ => false

/-- The tokens read so far. -/
def tokens : Progress → List Token
  | awaiting outer pending => Pending.outerTokens outer ++ pending.tokens
  | holding outer term => Pending.outerTokens outer ++ term.tokens

/-- Whether the ranks decide what belongs together in everything read so far. -/
def Layered : Progress → Prop
  | awaiting outer pending => (∀ group ∈ outer, group.Layered) ∧ pending.Layered
  | holding outer term => (∀ group ∈ outer, group.Layered) ∧ term.Layered 3

/-- What a token makes of the terms read so far. -/
def read : Progress → Token → Option Progress
  | awaiting outer pending, .opening => some (awaiting (pending :: outer) .nothing)
  | awaiting outer pending, .number value => some (holding outer (pending.attach (.number value)))
  | awaiting outer pending, .name text => some (holding outer (pending.attach (.name text)))
  | holding outer term, .operator op => some (awaiting outer (.operation term op))
  | holding (pending :: outer) term, .closing => some (holding outer (pending.attach (.group term)))
  | _, _ => none

/-- Every token read is kept. -/
theorem tokens_read {progress next : Progress} {token : Token}
    (read : progress.read token = some next) : next.tokens = progress.tokens ++ [token] := by
  unfold Progress.read at read
  split at read <;> cases read <;>
    simp [tokens, Pending.outerTokens, Pending.tokens_attach, Pending.tokens, Term.tokens]

/-- Reading keeps the ranks in order: an operator takes what stands before it in its group as
its left operand only as far as its rank allows. -/
theorem Layered.read {progress next : Progress} {token : Token} (layered : progress.Layered)
    (read : progress.read token = some next) : next.Layered := by
  unfold Progress.read at read
  split at read <;> cases read
  next outer pending =>
    exact ⟨List.forall_mem_cons.mpr ⟨layered.2, layered.1⟩, trivial⟩
  next outer pending value => exact ⟨layered.1, layered.2.attach trivial⟩
  next outer pending text => exact ⟨layered.1, layered.2.attach trivial⟩
  next outer term op => exact layered
  next pending outer term =>
    obtain ⟨groups, inside⟩ := layered
    obtain ⟨pendingLayered, outerLayered⟩ := List.forall_mem_cons.mp groups
    exact ⟨outerLayered, pendingLayered.attach inside⟩

/-- A token that fits can be read, if it closes no group that is not open. -/
theorem exists_read {progress : Progress} {token : Token} {rest : List Token}
    (fits : progress.awaitsOperand = token.startsOperand)
    (closed : Bracketing.openAfter progress.outer.length (token :: rest) = some 0) :
    ∃ next, progress.read token = some next ∧ next.awaitsOperand = token.awaitsOperand ∧
      Bracketing.openAfter next.outer.length rest = some 0 := by
  cases progress with
  | awaiting outer pending =>
    cases token with
    | opening => exact ⟨_, rfl, rfl, closed⟩
    | number value => exact ⟨_, rfl, rfl, by cases outer <;> exact closed⟩
    | name text => exact ⟨_, rfl, rfl, by cases outer <;> exact closed⟩
    | operator op => cases fits
    | closing => cases fits
  | holding outer term =>
    cases token with
    | opening => cases fits
    | number value => cases fits
    | name text => cases fits
    | operator op => exact ⟨_, rfl, rfl, by cases outer <;> exact closed⟩
    | closing =>
      cases outer with
      | nil => cases closed
      | cons pending outer => exact ⟨_, rfl, rfl, closed⟩

/-- Tokens that fit, with every bracket in its pair, are read to their end.

Proof: by induction on the tokens. The law for neighbours says that the next token is one that
the state takes, and the count of open groups that no bracket closes too much. At the end an
operand cannot be awaited, since the bracket put behind the tokens does not start one. -/
theorem exists_term (rest : List Token) {progress : Progress} {before : Token}
    (layered : progress.Layered) (awaits : before.awaitsOperand = progress.awaitsOperand)
    (fitting : List.IsChain Token.Fits (before :: rest ++ [.closing]))
    (closed : Bracketing.openAfter progress.outer.length rest = some 0) :
    ∃ term : Term, term.Layered 3 ∧ term.tokens = progress.tokens ++ rest := by
  induction rest generalizing progress before with
  | nil =>
    have ended : before.Fits .closing := List.isChain_pair.mp fitting
    cases progress with
    | awaiting outer pending => cases awaits.symm.trans ended
    | holding outer term =>
      obtain rfl : outer = [] := List.eq_nil_of_length_eq_zero (Option.some.inj closed)
      exact ⟨term, layered.2, by simp [tokens, Pending.outerTokens]⟩
  | cons token rest inductionHypothesis =>
    obtain ⟨fits, others⟩ := List.isChain_cons_cons.mp fitting
    obtain ⟨next, read, nextAwaits, nextClosed⟩ := exists_read (awaits.symm.trans fits) closed
    obtain ⟨term, termLayered, termTokens⟩ :=
      inductionHypothesis (layered.read read) nextAwaits.symm others nextClosed
    refine ⟨term, termLayered, ?_⟩
    rw [termTokens, tokens_read read, List.append_assoc]
    rfl

end Progress

/-- The well-formed token lists are those of terms, and each is that of a term in which the
ranks decide what belongs together. -/
theorem wellFormed_iff (tokens : List Token) :
    WellFormed tokens ↔ ∃ term : Term, term.Layered 3 ∧ term.tokens = tokens := by
  constructor
  · intro wellFormed
    have closed : Bracketing.openAfter 0 tokens = some 0 := by
      simpa [Bracketing.balanced] using wellFormed.balanced
    have layered : (Progress.awaiting [] .nothing).Layered := ⟨by simp, trivial⟩
    exact Progress.exists_term tokens layered rfl wellFormed.fitting closed
  · rintro ⟨term, -, rfl⟩
    exact term.wellFormed_tokens

end ParamSweep.Formula
