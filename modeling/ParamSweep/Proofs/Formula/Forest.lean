import Mathlib.Data.List.Infix
import ParamSweep.Proofs.Formula.Bracketing

/-!
# Balanced tokens as forests

Tokens are balanced if no beginning of them closes more groups than it opens and they open as many
as they close. Balanced tokens fall apart into operands, operators and groups, and what stands in a
group does so in turn. This is a forest; its tokens give it back, and everything that is said of
brackets below is said of forests: what stands next to what outside of brackets is what stands next
in the forest.
-/

namespace ParamSweep.Formula

/-- Every bracket has its partner: no beginning of the tokens closes more groups than it opens, and
in the end all groups are closed. -/
structure Balanced (tokens : List Token) : Prop where
  opened : ∀ before, before <+: tokens →
    before.countP Token.isClosing ≤ before.countP Token.isOpening
  closed : tokens.countP Token.isClosing = tokens.countP Token.isOpening

namespace Bracketing

/-- What holds of all beginnings of a list holds of none of its members and of each longer one. -/
theorem forall_prefix_cons {α : Type} {first : α} {rest : List α} {P : List α → Prop} :
    (∀ before, before <+: first :: rest → P before) ↔
      P [] ∧ ∀ before, before <+: rest → P (first :: before) := by
  constructor
  · intro all
    refine ⟨all [] List.nil_prefix, fun before begins => all _ ?_⟩
    exact (List.prefix_cons_inj first).mpr begins
  · rintro ⟨none, some⟩ before begins
    obtain rfl | ⟨others, rfl, shorter⟩ := List.prefix_cons_iff.mp begins
    · exact none
    · exact some others shorter

/-- A token that is no bracket leaves the count of open groups. -/
theorem openAfter_plain {token : Token} (opensNot : token.isOpening = false)
    (closesNot : token.isClosing = false) (opened : Nat) (rest : List Token) :
    openAfter opened (token :: rest) = openAfter opened rest :=
  openAfter_nested (.plain opensNot closesNot) opened rest

/-- The check counts the open groups, and fails at a beginning that closes one too many. -/
theorem openAfter_eq_some {opened left : Nat} {tokens : List Token} :
    openAfter opened tokens = some left ↔
      (∀ before, before <+: tokens →
        before.countP Token.isClosing ≤ opened + before.countP Token.isOpening) ∧
      opened + tokens.countP Token.isOpening = left + tokens.countP Token.isClosing := by
  induction tokens generalizing opened with
  | nil => simp [openAfter]
  | cons token tokens inductionHypothesis =>
    rw [forall_prefix_cons]
    cases token with
    | opening =>
      rw [openAfter, inductionHypothesis]
      simp only [List.countP_cons, List.countP_nil, Token.isOpening, Token.isClosing,
        Bool.false_eq_true, if_true, if_false, Nat.zero_le, true_and, Nat.add_zero]
      simp only [Nat.add_assoc, Nat.add_comm 1]
    | closing =>
      simp only [List.countP_cons, List.countP_nil, Token.isOpening, Token.isClosing,
        Bool.false_eq_true, if_true, if_false, Nat.zero_le, true_and, Nat.add_zero]
      cases opened with
      | zero =>
        refine iff_of_false (fun found => by cases found) ?_
        rintro ⟨beginnings, -⟩
        exact absurd (beginnings [] List.nil_prefix) (by simp)
      | succ opened =>
        rw [openAfter, inductionHypothesis]
        refine and_congr (forall_congr' fun before => imp_congr_right fun _ => ?_) ?_ <;> omega
    | number value =>
      rw [openAfter_plain rfl rfl, inductionHypothesis]
      simp [Token.isOpening, Token.isClosing]
    | name text =>
      rw [openAfter_plain rfl rfl, inductionHypothesis]
      simp [Token.isOpening, Token.isClosing]
    | operator op =>
      rw [openAfter_plain rfl rfl, inductionHypothesis]
      simp [Token.isOpening, Token.isClosing]

/-- The check accepts exactly the balanced tokens. -/
theorem balanced_iff {tokens : List Token} : balanced tokens = true ↔ Balanced tokens := by
  rw [balanced, beq_iff_eq, openAfter_eq_some]
  simp only [Nat.zero_add]
  constructor
  · rintro ⟨opened, closed⟩
    exact ⟨opened, closed.symm⟩
  · rintro ⟨opened, closed⟩
    exact ⟨opened, closed.symm⟩

end Bracketing

/-- Tokens by what stands next to each other outside of brackets, and within each group again. -/
inductive Forest
  | nil
  | operand (token : Token) (single : token.isOperand = true) (rest : Forest)
  | operator (op : Operator) (rest : Forest)
  | group (inside rest : Forest)

namespace Forest

/-- The tokens of a forest. -/
def tokens : Forest → List Token
  | nil => []
  | operand token _ rest => token :: rest.tokens
  | operator op rest => .operator op :: rest.tokens
  | group inside rest => .opening :: inside.tokens ++ .closing :: rest.tokens

/-- The number of operands, operators and groups, however deep. -/
def size : Forest → Nat
  | nil => 0
  | operand _ _ rest => rest.size + 1
  | operator _ rest => rest.size + 1
  | group inside rest => inside.size + rest.size + 1

/-- A forest with another behind it. -/
def append : Forest → Forest → Forest
  | nil, other => other
  | operand token single rest, other => operand token single (rest.append other)
  | operator op rest, other => operator op (rest.append other)
  | group inside rest, other => group inside (rest.append other)

/-- The tokens of two levels side by side. -/
@[simp] theorem tokens_append (forest other : Forest) :
    (forest.append other).tokens = forest.tokens ++ other.tokens := by
  induction forest with
  | nil => rfl
  | operand token single rest inductionHypothesis => simp [append, tokens, inductionHypothesis]
  | operator op rest inductionHypothesis => simp [append, tokens, inductionHypothesis]
  | group inside rest _ inductionHypothesis => simp [append, tokens, inductionHypothesis]

/-- Their sizes add up. -/
@[simp] theorem size_append (forest other : Forest) :
    (forest.append other).size = forest.size + other.size := by
  induction forest with
  | nil => simp [append, size]
  | operand token single rest inductionHypothesis =>
    simp only [append, size, inductionHypothesis]
    omega
  | operator op rest inductionHypothesis =>
    simp only [append, size, inductionHypothesis]
    omega
  | group inside rest _ inductionHypothesis =>
    simp only [append, size, inductionHypothesis]
    omega

open Bracketing in
/-- In the tokens of a forest every bracket has its partner. -/
theorem nested_tokens (forest : Forest) :
    Nested Token.isOpening Token.isClosing forest.tokens := by
  induction forest with
  | nil => exact .nil
  | operand token single rest inductionHypothesis =>
    have plain : Nested Token.isOpening Token.isClosing [token] := by
      refine .plain ?_ ?_ <;> cases token <;> first | rfl | cases single
    exact .append plain inductionHypothesis
  | operator op rest inductionHypothesis =>
    exact .append (.plain rfl rfl : Nested _ _ [.operator op]) inductionHypothesis
  | group inside rest insideHypothesis restHypothesis =>
    have whole := Nested.append (.group rfl rfl rfl insideHypothesis :
      Nested _ _ (.opening :: inside.tokens ++ [.closing])) restHypothesis
    simpa [tokens] using whole

/-- What is left behind a forest: nothing if no group is open, and otherwise what closes the
innermost one and then the others. -/
def Leaves : (opened : Nat) → List Token → Prop
  | 0, left => left = []
  | outer + 1, left => ∃ behind, left = .closing :: behind ∧
      Bracketing.openAfter outer behind = some 0

/-- Tokens that close as many groups as are open begin with the tokens of a forest.

Proof: by induction on the number of tokens, since what follows a group is read once the group has
been. -/
theorem exists_tokens_append {opened : Nat} {text : List Token}
    (closes : Bracketing.openAfter opened text = some 0) :
    ∃ (forest : Forest) (left : List Token), text = forest.tokens ++ left ∧
      Leaves opened left := by
  induction length : text.length using Nat.strong_induction_on generalizing opened text with
  | _ size inductionHypothesis =>
    subst length
    have onwards {token : Token} {rest : List Token} (parts : text = token :: rest)
        (same : Bracketing.openAfter opened rest = some 0) :
        ∃ (forest : Forest) (left : List Token), rest = forest.tokens ++ left ∧
          Leaves opened left :=
      inductionHypothesis rest.length (by simp [parts]) same rfl
    cases text with
    | nil =>
      obtain rfl := Option.some.inj closes
      exact ⟨nil, [], rfl, rfl⟩
    | cons token text =>
      cases token with
      | opening =>
        rw [Bracketing.openAfter] at closes
        obtain ⟨inside, _, rfl, behind, rfl, others⟩ :=
          inductionHypothesis text.length (by simp) closes rfl
        obtain ⟨rest, left, rfl, ends⟩ :=
          inductionHypothesis behind.length (by simp; omega) others rfl
        exact ⟨group inside rest, left, by simp [tokens], ends⟩
      | closing =>
        cases opened with
        | zero => cases closes
        | succ outer => exact ⟨nil, .closing :: text, rfl, text, rfl, closes⟩
      | operator op =>
        rw [Bracketing.openAfter_plain rfl rfl] at closes
        obtain ⟨rest, left, rfl, ends⟩ := onwards rfl closes
        exact ⟨operator op rest, left, rfl, ends⟩
      | number value =>
        rw [Bracketing.openAfter_plain rfl rfl] at closes
        obtain ⟨rest, left, rfl, ends⟩ := onwards rfl closes
        exact ⟨operand (.number value) rfl rest, left, rfl, ends⟩
      | name name =>
        rw [Bracketing.openAfter_plain rfl rfl] at closes
        obtain ⟨rest, left, rfl, ends⟩ := onwards rfl closes
        exact ⟨operand (.name name) rfl rest, left, rfl, ends⟩

/-- Balanced tokens are those of a forest. -/
theorem exists_tokens_eq {text : List Token} (balanced : Balanced text) :
    ∃ forest : Forest, forest.tokens = text := by
  have closes := Bracketing.balanced_iff.mpr balanced
  rw [Bracketing.balanced, beq_iff_eq] at closes
  obtain ⟨forest, left, parts, rfl⟩ := exists_tokens_append closes
  exact ⟨forest, by simpa using parts.symm⟩

/-- The tokens of a level are balanced. -/
theorem balanced_tokens (forest : Forest) : Balanced forest.tokens :=
  Bracketing.balanced_iff.mp (Bracketing.balanced_nested forest.nested_tokens)

/-- A single operand or a single group. -/
inductive IsOperand : Forest → Prop
  | single (token : Token) (single : token.isOperand = true) : IsOperand (operand token single nil)
  | group (inside : Forest) : IsOperand (group inside nil)

open Bracketing in
/-- The tokens of a single operand are an operand. -/
theorem IsOperand.operand_tokens {forest : Forest} (isOperand : forest.IsOperand) :
    Operand Token.isOpening Token.isClosing forest.tokens := by
  cases isOperand with
  | single token single => exact .single single
  | group inside => exact .group rfl rfl rfl rfl inside.nested_tokens

/-- Two operands, an operator between them, and nothing else. -/
inductive IsOperation : Forest → Prop
  | mk {left right : Forest} (op : Operator) (onLeft : left.IsOperand) (onRight : right.IsOperand) :
      IsOperation (left.append (operator op right))

end Forest

end ParamSweep.Formula
