import ParamSweep.Proofs.Domain.Usable
import ParamSweep.Proofs.Number.Shortest

/-!
# The text of a domain is a declaration of it

A domain is written with the shortest texts of its numbers. As long as its step is finite, these are
literals, whatever signs and however many digits they have, and they are read as the same floats. So
the text has the form of a declaration, all checks come out as before, and the same domain is made
again.

An infinite step is written as a word. The text of such a domain is no declaration.
-/

namespace ParamSweep.Domain

open Number (Binary64 plain readsAs_plain value?)
open Number.Literal (ReadsAs)

section

variable {declaration : List Char} {domain : Domain}

/-- The parts of the text, between colons. -/
theorem toList_text (domain : Domain) : domain.text.toList =
    [':'].intercalate [domain.name.toList, (plain domain.lower).toList, (plain domain.step).toList,
      (plain domain.upper).toList] := by
  rw [text, String.toList_intercalate]
  rfl

/-- The ends are finite, so their texts are read as they are. -/
theorem readsAs_ends (accepted : Domain.read declaration = .ok domain) :
    ReadsAs (plain domain.lower).toList domain.lower ∧
      ReadsAs (plain domain.upper).toList domain.upper := by
  obtain ⟨⟨first, last, bounded⟩, -⟩ := usable_or_endless (.inr ⟨declaration, accepted⟩)
  exact ⟨readsAs_plain bounded.lower, readsAs_plain bounded.upper⟩

/-- With a finite step the text spells the same parts as the declaration. -/
theorem spells_text (accepted : Domain.read declaration = .ok domain) {stride : ℚ}
    (finite : value? domain.step = some stride) :
    Spells domain.text.toList domain.name.toList domain.lower domain.step domain.upper := by
  obtain ⟨readsLower, readsUpper⟩ := readsAs_ends accepted
  refine ⟨⟨_, _, _, ?_, readsLower, readsAs_plain finite, readsUpper⟩,
    (spells_of_read accepted).isName⟩
  rw [toList_text]
  simp [List.intercalate]

/-- The word for an infinite number has no number in it. -/
theorem read_text_of_infinite (accepted : Domain.read declaration = .ok domain)
    (infinite : Binary64.ofFloat domain.step = .infinite false) :
    Domain.read domain.text.toList = .error (.formula .badVariable) := by
  have isName := (spells_of_read accepted).isName
  obtain ⟨readsLower, readsUpper⟩ := readsAs_ends accepted
  have word : (plain domain.step).toList = ['i', 'n', 'f'] := by
    rw [plain, String.toList_ofList, infinite]
    rfl
  have cut : Text.pieces ':' domain.text.toList = [domain.name.toList, (plain domain.lower).toList,
      ['i', 'n', 'f'], (plain domain.upper).toList] := by
    refine (Text.pieces_eq_iff (List.cons_ne_nil _ _)).mpr ⟨?_, by rw [toList_text, word]⟩
    simp only [List.forall_mem_cons, List.not_mem_nil, false_imp_iff, implies_true, and_true]
    exact ⟨isName.colon, readsLower.colon, by decide, readsUpper.colon⟩
  have named : Formula.isName domain.name.toList = true := (Formula.isName_iff _).mpr isName
  simp only [Domain.read, cut, named, if_true, readNumber_eq_ok.mpr readsLower]
  rfl

end

/-- A domain that is read from a declaration is read from its own text, too: the same name, the same
numbers and as many points. Only an infinite step has a text that is refused.

Proof: the text spells the parts of the declaration, and what is made of these has not changed. -/
theorem read_text {declaration : List Char} {domain : Domain}
    (accepted : Domain.read declaration = .ok domain) :
    ((∃ stride, value? domain.step = some stride) →
      Domain.read domain.text.toList = .ok domain) ∧
    ((∀ stride, value? domain.step ≠ some stride) →
      Domain.read domain.text.toList = .error (.formula .badVariable)) := by
  constructor
  · rintro ⟨stride, finite⟩
    rw [(spells_text accepted finite).read, ← (spells_of_read accepted).read, accepted]
  · intro none
    obtain ⟨-, usable, -⟩ := usable_or_endless (.inr ⟨declaration, accepted⟩)
    refine read_text_of_infinite accepted ?_
    by_contra finite
    obtain ⟨_, _, stride, -, known, -⟩ := usable finite
    exact none stride known

/-- Zeros that say nothing are not in the text, and the sign of a zero is. -/
theorem read_text_of_tenths :
    ∃ domain, Domain.read "z1:-00.50:0.10:-0".toList = .ok domain ∧
      domain.text = "z1:-0.5:0.1:-0" ∧ domain.size = 6 ∧
      Domain.read domain.text.toList = .ok domain := by
  obtain ⟨domain, accepted, seen⟩ := exists_of_observed
    (show (Domain.read "z1:-00.50:0.10:-0".toList).toOption.map (fun domain =>
      ((value? domain.step).isSome, domain.text, domain.size)) =
        some (true, "z1:-0.5:0.1:-0", 6) by decide +kernel)
  obtain ⟨finite, text, size⟩ : (value? domain.step).isSome = true ∧
      domain.text = "z1:-0.5:0.1:-0" ∧ domain.size = 6 := by
    simpa only [Prod.mk.injEq] using seen
  obtain ⟨again, -⟩ := read_text accepted
  exact ⟨domain, accepted, text, size, again (Option.isSome_iff_exists.mp finite)⟩

end ParamSweep.Domain
