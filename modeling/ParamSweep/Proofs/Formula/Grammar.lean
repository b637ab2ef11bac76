import ParamSweep.Proofs.Formula.Meaning

/-!
# The texts that are formulas

The grammar of formulas knows no ranks: a text is a number, a name, a group, or two texts with
the glyph of an operator between them. Such a text has the tokens of some term, and a list of
tokens that is one of a term is also one of a term with its operators in the order of their
ranks. So the grammar admits exactly the texts that have a meaning, and these are the texts that
are accepted.

Which texts are refused can be told from their tokens: a text of tokens is refused if a bracket
lacks its partner or if two neighbours do not fit.
-/

namespace ParamSweep.Formula

/-- A text that has a meaning follows the grammar. -/
theorem Reads.grammatical {bound : Nat} {text : List Char} {term : Term}
    (reads : Reads bound text term) : Grammatical text := by
  induction reads with
  | @number bound text value literal =>
    have isLiteral : Number.Literal.isLiteral text = true := by
      by_contra refused
      rw [Number.Literal.read?, if_neg refused] at literal
      cases literal
    obtain run | ⟨whole, fraction, rfl, before, behind⟩ := (isLiteral_iff text).mp isLiteral
    · exact .whole run
    · exact .fraction before behind
  | @name bound text spelled =>
    obtain ⟨first, rest, rfl, letter, others⟩ := (isName_iff text).mp spelled
    exact .name letter others
  | group inside inductionHypothesis => exact .group inductionHypothesis
  | operation allowed onLeft onRight leftHypothesis rightHypothesis =>
    exact .operation _ leftHypothesis rightHypothesis

/-- A literal is cut into the tokens of a term. -/
theorem exists_tokens_of_isLiteral {text : List Char}
    (literal : Number.Literal.isLiteral text = true) :
    ∃ term : Term, tokens? text = some term.tokens := by
  have read : Number.Literal.read? text = some (Number.Literal.decimal text).toFloat := by
    rw [Number.Literal.read?, if_pos literal]
  exact ⟨.number _, tokens?_literal read⟩

/-- A text that follows the grammar has the tokens of a term. -/
theorem Grammatical.exists_tokens {text : List Char} (grammatical : Grammatical text) :
    ∃ term : Term, tokens? text = some term.tokens := by
  induction grammatical with
  | @whole digits run => exact exists_tokens_of_isLiteral ((isLiteral_iff _).mpr (.inl run))
  | @fraction whole fraction before behind =>
    exact exists_tokens_of_isLiteral
      ((isLiteral_iff _).mpr (.inr ⟨whole, fraction, rfl, before, behind⟩))
  | @name first rest letter others =>
    exact ⟨.name _, tokens?_name ((isName_iff _).mpr ⟨first, rest, rfl, letter, others⟩)⟩
  | @group text inside inductionHypothesis =>
    obtain ⟨term, found⟩ := inductionHypothesis
    exact ⟨.group term, tokens?_group found⟩
  | @operation left right op onLeft onRight leftHypothesis rightHypothesis =>
    obtain ⟨leftTerm, leftFound⟩ := leftHypothesis
    obtain ⟨rightTerm, rightFound⟩ := rightHypothesis
    exact ⟨.operation op leftTerm rightTerm,
      tokens?_append_glyph (Token.ofGlyph?_glyph op) leftFound rightFound⟩

/-- The grammar admits the texts with well-formed tokens. -/
theorem grammatical_iff_wellFormed {text : List Char} {tokens : List Token}
    (found : tokens? text = some tokens) : Grammatical text ↔ WellFormed tokens := by
  constructor
  · intro grammatical
    obtain ⟨term, same⟩ := grammatical.exists_tokens
    obtain rfl : tokens = term.tokens := Option.some.inj (found.symm.trans same)
    exact term.wellFormed_tokens
  · intro wellFormed
    obtain ⟨term, layered, rfl⟩ := (wellFormed_iff tokens).mp wellFormed
    exact (reads_iff.mpr ⟨found, layered⟩).grammatical

/-- The grammar admits the texts that have a meaning. -/
theorem grammatical_iff_reads (text : List Char) :
    Grammatical text ↔ ∃ term, Reads 3 text term := by
  constructor
  · intro grammatical
    obtain ⟨term, found⟩ := grammatical.exists_tokens
    obtain ⟨layeredTerm, layered, same⟩ := (wellFormed_iff _).mp term.wellFormed_tokens
    exact ⟨layeredTerm, reads_iff.mpr ⟨found.trans (congrArg some same.symm), layered⟩⟩
  · rintro ⟨term, reads⟩
    exact reads.grammatical

/-- The grammar admits the texts that are accepted. -/
theorem grammatical_iff_arena (text : List Char) :
    Grammatical text ↔ ∃ arena, arenaOfText? text = some arena := by
  rw [grammatical_iff_reads]
  constructor
  · rintro ⟨term, reads⟩
    obtain ⟨arena, found, -⟩ := reads.arenaOfText?
    exact ⟨arena, found⟩
  · rintro ⟨arena, found⟩
    exact exists_reads found

/-- No text is empty that is grammatical. -/
theorem not_grammatical_nil : ¬Grammatical [] := by
  intro grammatical
  have fitting := ((grammatical_iff_wellFormed rfl).mp grammatical).fitting
  cases List.isChain_pair.mp fitting

/-- Two neighbours that do not fit: an operand or an operator is missing between them. -/
def Misfit (tokens : List Token) : Prop :=
  ∃ before first second behind,
    .opening :: tokens ++ [.closing] = before ++ first :: second :: behind ∧ ¬first.Fits second

/-- Tokens with a misfit among them are not those of a term. -/
theorem not_wellFormed_of_misfit {tokens : List Token} (misfit : Misfit tokens) :
    ¬WellFormed tokens := by
  obtain ⟨before, first, second, behind, parts, unfit⟩ := misfit
  intro wellFormed
  exact unfit (List.isChain_iff_forall_rel_of_append_cons_cons.mp wellFormed.fitting parts)

/-- Where nothing is left of a text, or there is none, it is refused as empty. -/
theorem prepare_of_nothing {formula : Formula}
    (nothing : ∀ text, formula.source = some text → stripped text = []) :
    formula.prepare = .error .empty := by
  rw [prepare_eq]
  split
  next => rfl
  next text source => rw [if_pos (nothing text source)]

/-- A text that is grammatical without its blanks is accepted. -/
theorem prepare_of_grammatical {formula : Formula} {text : String}
    (source : formula.source = some text) (grammatical : Grammatical (stripped text)) :
    ∃ prepared, formula.prepare = .ok prepared := by
  obtain ⟨arena, found⟩ := (grammatical_iff_arena _).mp grammatical
  have left : stripped text ≠ [] := fun nothing =>
    not_grammatical_nil (nothing ▸ grammatical)
  refine ⟨{ formula with arena := some arena }, ?_⟩
  simp only [prepare_eq, source, if_neg left, found]

/-- A text that reads as a term can be prepared, and then has the value of the term. -/
theorem Reads.prepare {text : String} {term : Term} (reads : Reads 3 (stripped text) term) :
    ∃ formula, (ofText text).prepare = .ok formula ∧
      ∀ valuation, formula.value valuation = term.value valuation := by
  obtain ⟨arena, found, values⟩ := reads.arenaOfText?
  have left : stripped text ≠ [] := fun nothing => not_grammatical_nil (nothing ▸ reads.grammatical)
  refine ⟨{ ofText text with arena := some arena }, ?_, values⟩
  simp only [prepare_eq, ofText, found, if_neg left]

/-- A text that can be prepared reads as a term. -/
theorem exists_reads_of_prepare {text : String} {formula : Formula}
    (accepted : (ofText text).prepare = .ok formula) : ∃ term, Reads 3 (stripped text) term := by
  obtain ⟨own, arena, source, found, -⟩ := prepare_eq_ok accepted
  obtain rfl : text = own := Option.some.inj source
  exact exists_reads found

/-- Any other text is refused as malformed. -/
theorem prepare_of_not_grammatical {formula : Formula} {text : String}
    (source : formula.source = some text) (left : stripped text ≠ [])
    (ungrammatical : ¬Grammatical (stripped text)) : formula.prepare = .error .malformed := by
  have noArena : arenaOfText? (stripped text) = none := by
    cases found : arenaOfText? (stripped text) with
    | none => rfl
    | some arena => exact absurd ((grammatical_iff_arena _).mpr ⟨arena, found⟩) ungrammatical
  simp only [prepare_eq, source, if_neg left, noArena]

/-- Preparing a formula accepts exactly the grammar. Without blanks, a text of which nothing is
left is empty, one that follows the grammar is accepted, and any other is malformed; a formula
without a text counts as empty. So a text is malformed whenever a bracket lacks its partner or
two neighbouring tokens do not fit, at any depth: operands side by side, an empty group, an
operator without an operand on either side or in front of its only one. -/
theorem prepare_iff (formula : Formula) :
    (formula.prepare = .error .empty ↔
      ∀ text, formula.source = some text → stripped text = []) ∧
    ((∃ prepared, formula.prepare = .ok prepared) ↔
      ∃ text, formula.source = some text ∧ Grammatical (stripped text)) ∧
    (formula.prepare = .error .malformed ↔
      ∃ text, formula.source = some text ∧ stripped text ≠ [] ∧ ¬Grammatical (stripped text)) ∧
    (∀ text tokens, formula.source = some text → stripped text ≠ [] →
      tokens? (stripped text) = some tokens →
      Bracketing.balanced tokens = false ∨ Misfit tokens →
      formula.prepare = .error .malformed) := by
  have refused {text : String} (source : formula.source = some text)
      (left : stripped text ≠ []) (ungrammatical : ¬Grammatical (stripped text)) :
      formula.prepare = .error .malformed :=
    prepare_of_not_grammatical source left ungrammatical
  refine ⟨⟨?_, prepare_of_nothing⟩, ⟨?_, ?_⟩, ⟨?_, ?_⟩, ?_⟩
  · intro empty text source
    by_contra left
    by_cases grammatical : Grammatical (stripped text)
    · obtain ⟨prepared, accepted⟩ := prepare_of_grammatical source grammatical
      cases empty.symm.trans accepted
    · cases empty.symm.trans (refused source left grammatical)
  · rintro ⟨prepared, accepted⟩
    obtain ⟨text, arena, source, found, -⟩ := prepare_eq_ok accepted
    exact ⟨text, source, (grammatical_iff_arena _).mpr ⟨arena, found⟩⟩
  · rintro ⟨text, source, grammatical⟩
    exact prepare_of_grammatical source grammatical
  · intro malformed
    by_cases nothing : ∀ text, formula.source = some text → stripped text = []
    · cases malformed.symm.trans (prepare_of_nothing nothing)
    · simp only [not_forall] at nothing
      obtain ⟨text, source, left⟩ := nothing
      refine ⟨text, source, left, fun grammatical => ?_⟩
      obtain ⟨prepared, accepted⟩ := prepare_of_grammatical source grammatical
      cases malformed.symm.trans accepted
  · rintro ⟨text, source, left, ungrammatical⟩
    exact refused source left ungrammatical
  · intro text tokens source left found fault
    have unformed : ¬WellFormed tokens := by
      rcases fault with unbalanced | misfit
      · exact fun wellFormed => by
          cases unbalanced.symm.trans wellFormed.balanced
      · exact not_wellFormed_of_misfit misfit
    exact refused source left (mt (grammatical_iff_wellFormed found).mp unformed)

end ParamSweep.Formula
