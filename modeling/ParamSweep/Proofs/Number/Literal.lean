import Mathlib.Data.List.Induction
import Mathlib.Data.Nat.Digits.Defs
import Mathlib.Algebra.Field.Rat
import Mathlib.Tactic.FieldSimp
import Mathlib.Tactic.Ring
import ParamSweep.Proofs.Formula.Lexing

/-!
# The exact value of a number literal

A literal is written in positional notation to the base ten, with digits before the point and behind
it. The units and the exponent that are read from it are those of the number it is written for, so
nothing is lost before this number is turned into a float.
-/

namespace ParamSweep.Number

/-- The number that a decimal stands for. -/
def Decimal.exact (decimal : Decimal) : ℚ := decimal.units * 10 ^ decimal.exponent

namespace Literal

open Formula (DigitRun)

/-- The number that a run of digits is written for, its last digit counting ones. -/
def positional (digits : List Char) : ℕ :=
  Nat.ofDigits 10 (digits.reverse.map fun c => c.toNat - '0'.toNat)

/-- The literals without a sign, and what they are written for. -/
inductive Denotes : List Char → ℚ → Prop
  | whole {digits : List Char} (run : DigitRun digits) : Denotes digits (positional digits)
  | fraction {whole fraction : List Char} (before : DigitRun whole) (behind : DigitRun fraction) :
      Denotes (whole ++ '.' :: fraction)
        (positional whole + positional fraction / 10 ^ fraction.length)

/-- The literals that may have a minus sign. -/
inductive DenotesSigned : List Char → ℚ → Prop
  | plain {text : List Char} {value : ℚ} (denotes : Denotes text value) : DenotesSigned text value
  | minus {text : List Char} {value : ℚ} (denotes : Denotes text value) :
      DenotesSigned ('-' :: text) (-value)

/-- The test for literals accepts exactly the texts that stand for a number. -/
theorem isLiteral_iff_denotes (text : List Char) :
    isLiteral text = true ↔ ∃ value, Denotes text value := by
  rw [Formula.isLiteral_iff]
  constructor
  · rintro (run | ⟨whole, fraction, rfl, before, behind⟩)
    · exact ⟨_, .whole run⟩
    · exact ⟨_, .fraction before behind⟩
  · rintro ⟨value, run | ⟨before, behind⟩⟩
    · exact .inl run
    · exact .inr ⟨_, _, rfl, before, behind⟩

/-- A literal without a sign is written with digits and a point. -/
theorem Denotes.isDigit_or_point {text : List Char} {value : ℚ} (denotes : Denotes text value) :
    ∀ c ∈ text, c.isDigit = true ∨ c = '.' := by
  cases denotes with
  | whole run => exact fun c member => .inl (run.2 c member)
  | fraction before behind =>
    refine List.forall_mem_append.mpr ⟨fun c member => .inl (before.2 c member), ?_⟩
    exact List.forall_mem_cons.mpr ⟨.inr rfl, fun c member => .inl (behind.2 c member)⟩

/-- A literal without a sign does not begin with one. -/
theorem Denotes.ne_minus {text : List Char} {value : ℚ} (denotes : Denotes ('-' :: text) value) :
    False := by
  exact absurd (denotes.isDigit_or_point '-' List.mem_cons_self) (by decide)

/-- One more digit makes ten times as many units and its own. -/
theorem unitsOf_append_singleton (digits : List Char) (c : Char) :
    unitsOf (digits ++ [c]) = 10 * unitsOf digits + (c.toNat - '0'.toNat) := by
  rw [unitsOf, List.foldl_append]
  rfl

/-- Digits are read as the number they are written for. -/
theorem unitsOf_eq (digits : List Char) : unitsOf digits = positional digits := by
  induction digits using List.reverseRecOn with
  | nil => rfl
  | append_singleton digits c inductionHypothesis =>
    rw [unitsOf_append_singleton, inductionHypothesis, positional, positional,
      List.reverse_append, List.reverse_singleton, List.singleton_append, List.map_cons,
      Nat.ofDigits_cons]
    omega

/-- Digits behind others move them up by so many places. -/
theorem unitsOf_append (before behind : List Char) :
    unitsOf (before ++ behind) = unitsOf before * 10 ^ behind.length + unitsOf behind := by
  rw [unitsOf_eq, unitsOf_eq, unitsOf_eq, positional, List.reverse_append, List.map_append,
    Nat.ofDigits_append, List.length_map, List.length_reverse]
  exact (Nat.add_comm _ _).trans (congrArg (· + _) (Nat.mul_comm _ _))

/-- What is read from a literal stands for the number that the literal is written for. -/
theorem Denotes.exact_decimal {text : List Char} {value : ℚ} (denotes : Denotes text value) :
    (decimal text).exact = value := by
  cases denotes with
  | whole run =>
    simp only [decimal, Formula.parts_run run, Option.getD_none, List.append_nil, Decimal.exact,
      unitsOf_eq, List.length_nil]
    simp
  | fraction before behind =>
    simp only [decimal, Formula.parts_fraction before, Option.getD_some, Decimal.exact,
      unitsOf_append, zpow_neg, zpow_natCast]
    simp only [unitsOf_eq]
    push_cast
    field_simp

/-- The literals without a sign are read. -/
theorem read?_eq_some {text : List Char} {x : Float} :
    read? text = some x ↔ (∃ value, Denotes text value) ∧ (decimal text).toFloat = x := by
  rw [read?, ← isLiteral_iff_denotes]
  split <;> simp_all

/-- A text that is a signed literal is read as one. -/
theorem isSome_readSigned? (text : List Char) :
    (readSigned? text).isSome = true ↔ ∃ value, DenotesSigned text value := by
  have plain (text : List Char) :
      (read? text).isSome = true ↔ ∃ value, Denotes text value := by
    rw [← isLiteral_iff_denotes, read?]
    split <;> simp_all
  constructor
  · intro some
    unfold readSigned? at some
    split at some
    next text =>
      rw [Option.isSome_map] at some
      obtain ⟨value, denotes⟩ := (plain text).mp some
      exact ⟨-value, .minus denotes⟩
    next =>
      obtain ⟨value, denotes⟩ := (plain text).mp some
      exact ⟨value, .plain denotes⟩
  · rintro ⟨value, denotes | denotes⟩
    · rw [readSigned?.eq_2 text fun rest same => (same ▸ denotes).ne_minus]
      exact (plain text).mpr ⟨_, denotes⟩
    · rw [readSigned?, Option.isSome_map]
      exact (plain _).mpr ⟨_, denotes⟩

end Literal

end ParamSweep.Number
