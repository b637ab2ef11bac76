import Mathlib.Data.List.TakeWhile
import ParamSweep.Proofs.Formula.Term
import ParamSweep.Proofs.Text.Items

/-!
# The tokens of a text that reads as a term

A glyph cuts the lexemes of a text in two, and what stands on either side has the lexemes that
it has alone. So the tokens of a composed text are those of its parts with the token of the
glyph between them, and a text reads as a term exactly if its tokens are those of the term.
-/

namespace ParamSweep.Formula

/-- The seven characters that are tokens on their own. -/
theorem Token.ofGlyph?_eq_some {c : Char} {token : Token} (standsFor : ofGlyph? c = some token) :
    (c = '(' ∧ token = opening) ∨ (c = ')' ∧ token = closing) ∨
      ∃ op : Operator, c = op.glyph ∧ token = operator op := by
  unfold ofGlyph? at standsFor
  split at standsFor
  · exact Or.inl ⟨rfl, (Option.some.inj standsFor).symm⟩
  · exact Or.inr (Or.inl ⟨rfl, (Option.some.inj standsFor).symm⟩)
  · obtain ⟨op, found, rfl⟩ := Option.map_eq_some_iff.mp standsFor
    refine Or.inr (Or.inr ⟨op, ?_, rfl⟩)
    unfold Operator.ofGlyph? at found
    split at found <;> cases found <;> rfl

/-- The character of an operator is read as that operator. -/
@[simp] theorem Token.ofGlyph?_glyph (op : Operator) : ofGlyph? op.glyph = some (operator op) := by
  cases op <;> rfl

/-- Letters, digits and the point are no glyphs. -/
theorem Token.ofGlyph?_eq_none {c : Char}
    (ordinary : c.isDigit = true ∨ c.isLower = true ∨ c = '.') : ofGlyph? c = none := by
  cases found : ofGlyph? c with
  | none => rfl
  | some token =>
    obtain ⟨rfl, -⟩ | ⟨rfl, -⟩ | ⟨op, rfl, -⟩ := ofGlyph?_eq_some found
    · exact absurd ordinary (by decide)
    · exact absurd ordinary (by decide)
    · cases op <;> exact absurd ordinary (by decide)

namespace Lexeme

/-- A text is cut from its end: the first character is attached to what the rest is cut into. -/
theorem ofText_cons (c : Char) (text : List Char) : ofText (c :: text) = attach c (ofText text) :=
  rfl

/-- A glyph ends the run before it, and what stands behind it does not reach back. -/
theorem ofText_append_glyph {c : Char} {token : Token} (left right : List Char)
    (standsFor : Token.ofGlyph? c = some token) :
    ofText (left ++ c :: right) = ofText left ++ glyph c :: ofText right := by
  induction left with
  | nil => simp [ofText, attach, standsFor]
  | cons first left inductionHypothesis =>
    rw [List.cons_append, ofText_cons, ofText_cons, inductionHypothesis]
    cases alone : Token.ofGlyph? first with
    | some other => simp [attach, alone]
    | none =>
      match ofText left with
      | [] => simp [attach, alone]
      | .glyph _ :: _ => simp [attach, alone]
      | .run _ :: _ => simp [attach, alone]

/-- A text without glyphs is a single run. -/
theorem ofText_run {text : List Char} (nonempty : text ≠ [])
    (ordinary : ∀ c ∈ text, Token.ofGlyph? c = none) : ofText text = [run text] := by
  induction text with
  | nil => exact absurd rfl nonempty
  | cons first rest inductionHypothesis =>
    have alone : Token.ofGlyph? first = none := ordinary first (by simp)
    cases rest with
    | nil => simp [ofText, attach, alone]
    | cons second rest =>
      rw [ofText_cons, inductionHypothesis (by simp) fun c member => ordinary c (by simp [member])]
      simp [attach, alone]

/-- The lexemes of a text joined together give the text back. -/
theorem flatMap_text_ofText (text : List Char) : (ofText text).flatMap Lexeme.text = text := by
  induction text with
  | nil => rfl
  | cons first rest inductionHypothesis =>
    rw [ofText_cons]
    cases alone : Token.ofGlyph? first with
    | some other => simp [attach, alone, Lexeme.text, inductionHypothesis]
    | none =>
      match lexemes : ofText rest with
      | [] => simp_all [attach, Lexeme.text]
      | .glyph _ :: _ => simp_all [attach, Lexeme.text]
      | .run _ :: _ => simp_all [attach, Lexeme.text]

end Lexeme

/-- The tokens of a text that a glyph cuts in two. -/
theorem tokens?_append_glyph {c : Char} {token : Token} {left right : List Char}
    {leftTokens rightTokens : List Token} (standsFor : Token.ofGlyph? c = some token)
    (onLeft : tokens? left = some leftTokens) (onRight : tokens? right = some rightTokens) :
    tokens? (left ++ c :: right) = some (leftTokens ++ token :: rightTokens) := by
  simp only [tokens?] at onLeft onRight
  simp [tokens?, Lexeme.ofText_append_glyph left right standsFor, onLeft, onRight,
    Lexeme.token?, standsFor]

/-- A text without glyphs has at most one token. -/
theorem tokens?_run {text : List Char} (nonempty : text ≠ [])
    (ordinary : ∀ c ∈ text, Token.ofGlyph? c = none) :
    tokens? text = (Token.ofRun? text).map ([·]) := by
  simp only [tokens?, Lexeme.ofText_run nonempty ordinary, List.mapM_cons, List.mapM_nil,
    Lexeme.token?]
  cases Token.ofRun? text <;> rfl

/-- Brackets around a text are brackets around its tokens. -/
theorem tokens?_group {text : List Char} {inner : List Token}
    (inside : tokens? text = some inner) :
    tokens? ('(' :: text ++ [')']) = some (.opening :: inner ++ [.closing]) := by
  have nothing : tokens? [] = some [] := rfl
  have opened : Token.ofGlyph? '(' = some .opening := rfl
  have closed : Token.ofGlyph? ')' = some .closing := rfl
  simpa using tokens?_append_glyph opened nothing (tokens?_append_glyph closed inside nothing)

/-! ### Number literals and names -/

/-- The test for digits finds exactly the runs of digits. -/
theorem isDigits_iff (text : List Char) :
    Number.Literal.isDigits text = true ↔ DigitRun text := by
  simp [Number.Literal.isDigits, DigitRun]

/-- There is no point among digits. -/
theorem DigitRun.ne_point {text : List Char} (run : DigitRun text) {c : Char} (member : c ∈ text) :
    c ≠ '.' := by
  rintro rfl
  exact absurd (run.2 _ member) (by decide)

/-- Digits without a point are the whole part of a literal, which has no fraction. -/
theorem parts_run {text : List Char} (run : DigitRun text) :
    Number.Literal.parts text = (text, none) := by
  have noPoint : text.dropWhile (· ≠ '.') = [] :=
    List.dropWhile_eq_nil_iff.mpr fun c member => by simpa using run.ne_point member
  simp only [Number.Literal.parts, noPoint]

/-- The first point divides a literal into its whole part and its fraction. -/
theorem parts_fraction {whole fraction : List Char} (run : DigitRun whole) :
    Number.Literal.parts (whole ++ '.' :: fraction) = (whole, some fraction) := by
  have before : ∀ c ∈ whole, decide (c ≠ '.') = true := fun c member => by
    simpa using run.ne_point member
  have dropped : (whole ++ '.' :: fraction).dropWhile (· ≠ '.') = '.' :: fraction := by
    rw [List.dropWhile_append_of_pos before]
    simp
  have taken : (whole ++ '.' :: fraction).takeWhile (· ≠ '.') = whole := by
    rw [List.takeWhile_append_of_pos before]
    simp
  simp only [Number.Literal.parts, dropped, taken]

/-- A literal is one run of digits, or two with a point between them. -/
theorem isLiteral_iff (text : List Char) :
    Number.Literal.isLiteral text = true ↔
      DigitRun text ∨ ∃ whole fraction, text = whole ++ '.' :: fraction ∧
        DigitRun whole ∧ DigitRun fraction := by
  constructor
  · intro literal
    unfold Number.Literal.isLiteral at literal
    cases cut : text.dropWhile (· ≠ '.') with
    | nil =>
      simp only [Number.Literal.parts, cut, Option.all_none, Bool.and_true] at literal
      exact Or.inl ((isDigits_iff text).mp literal)
    | cons point fraction =>
      simp only [Number.Literal.parts, cut, Option.all_some, Bool.and_eq_true] at literal
      have isPoint : point = '.' := by
        have stopped : decide (point ≠ '.') = false := by
          have nonempty : text.dropWhile (· ≠ '.') ≠ [] := by simp only [cut, ne_eq, reduceCtorEq,
            not_false_eq_true]
          simpa only [cut, List.head_cons] using List.head_dropWhile_not (· ≠ '.') nonempty
        simpa using stopped
      refine Or.inr ⟨text.takeWhile (· ≠ '.'), fraction, ?_,
        (isDigits_iff _).mp literal.1, (isDigits_iff _).mp literal.2⟩
      subst isPoint
      rw [← cut, List.takeWhile_append_dropWhile]
  · rintro (run | ⟨whole, fraction, rfl, before, behind⟩)
    · simp [Number.Literal.isLiteral, parts_run run, (isDigits_iff text).mpr run]
    · simp [Number.Literal.isLiteral, parts_fraction before, (isDigits_iff whole).mpr before,
        (isDigits_iff fraction).mpr behind]

/-- A name is a small letter, then small letters and digits. -/
theorem isName_iff (text : List Char) :
    isName text = true ↔ ∃ first rest, text = first :: rest ∧ first.isLower = true ∧
      ∀ c ∈ rest, c.isLower = true ∨ c.isDigit = true := by
  cases text with
  | nil => simp [isName]
  | cons first rest =>
    simp only [isName, Bool.and_eq_true, List.all_eq_true, Bool.or_eq_true]
    constructor
    · rintro ⟨letter, others⟩
      exact ⟨first, rest, rfl, letter, others⟩
    · rintro ⟨_, _, same, letter, others⟩
      obtain ⟨rfl, rfl⟩ := List.cons.inj same
      exact ⟨letter, others⟩

/-- No letter is a digit. -/
theorem not_isDigit_of_isLower {c : Char} (letter : c.isLower = true) : c.isDigit = false := by
  have bounds : (decide (c.val ≥ 'a'.val) && decide (c.val ≤ 'z'.val)) = true := letter
  change (decide (c.val ≥ '0'.val) && decide (c.val ≤ '9'.val)) = false
  simp only [ge_iff_le, Bool.and_eq_true, decide_eq_true_eq, Bool.and_eq_false_iff,
    decide_eq_false_iff_not, UInt32.le_iff_toNat_le] at bounds ⊢
  right
  have small : ('9' : Char).val.toNat < ('a' : Char).val.toNat := by decide
  omega

/-- A literal starts with a digit, so no name is a literal. -/
theorem read?_name {text : List Char} (spelled : isName text = true) :
    Number.Literal.read? text = none := by
  obtain ⟨first, rest, rfl, letter, -⟩ := (isName_iff text).mp spelled
  have notDigit : first.isDigit = false := not_isDigit_of_isLower letter
  have notLiteral : Number.Literal.isLiteral (first :: rest) ≠ true := by
    intro literal
    obtain run | ⟨whole, fraction, same, before, -⟩ := (isLiteral_iff _).mp literal
    · simp [run.2 first (by simp)] at notDigit
    · cases whole with
      | nil => exact before.1 rfl
      | cons digit whole =>
        obtain ⟨rfl, -⟩ := List.cons.inj same
        simp [before.2 first (by simp)] at notDigit
  simp [Number.Literal.read?, notLiteral]

/-- A name has one token, which carries its text. -/
theorem tokens?_name {text : List Char} (spelled : isName text = true) :
    tokens? text = some [.name (String.ofList text)] := by
  obtain ⟨first, rest, same, letter, others⟩ := (isName_iff text).mp spelled
  have ordinary : ∀ c ∈ text, Token.ofGlyph? c = none := by
    subst same
    intro c member
    rcases List.mem_cons.mp member with rfl | member
    · exact Token.ofGlyph?_eq_none (Or.inr (Or.inl letter))
    · exact Token.ofGlyph?_eq_none ((others c member).elim (Or.inr ∘ Or.inl) Or.inl)
  rw [tokens?_run (by simp [same]) ordinary, Token.ofRun?, read?_name spelled]
  simp [spelled]

/-- A literal has one token, which carries its value. -/
theorem tokens?_literal {text : List Char} {value : Float}
    (literal : Number.Literal.read? text = some value) :
    tokens? text = some [.number (.float value)] := by
  have isLiteral : Number.Literal.isLiteral text = true := by
    by_contra refused
    simp [Number.Literal.read?, refused] at literal
  have ordinary : text ≠ [] ∧ ∀ c ∈ text, c.isDigit = true ∨ c = '.' := by
    obtain run | ⟨whole, fraction, rfl, before, behind⟩ := (isLiteral_iff text).mp isLiteral
    · exact ⟨run.1, fun c member => Or.inl (run.2 c member)⟩
    · refine ⟨by simp, fun c member => ?_⟩
      simp only [List.mem_append, List.mem_cons] at member
      obtain member | rfl | member := member
      · exact Or.inl (before.2 c member)
      · exact Or.inr rfl
      · exact Or.inl (behind.2 c member)
  rw [tokens?_run ordinary.1 fun c member =>
    Token.ofGlyph?_eq_none ((ordinary.2 c member).imp_right Or.inr), Token.ofRun?, literal]
  rfl

/-! ### Texts and terms -/

/-- A text that reads as a term has the tokens of the term, and the term keeps the order of the
ranks. -/
theorem Reads.tokens? {bound : Nat} {text : List Char} {term : Term}
    (reads : Reads bound text term) :
    ParamSweep.Formula.tokens? text = some term.tokens ∧ term.Layered bound := by
  induction reads with
  | number literal => exact ⟨tokens?_literal literal, trivial⟩
  | name spelled => exact ⟨tokens?_name spelled, trivial⟩
  | group inside inductionHypothesis =>
    exact ⟨tokens?_group inductionHypothesis.1, inductionHypothesis.2⟩
  | operation allowed onLeft onRight leftHypothesis rightHypothesis =>
    exact ⟨tokens?_append_glyph (Token.ofGlyph?_glyph _) leftHypothesis.1 rightHypothesis.1,
      allowed, leftHypothesis.2, rightHypothesis.2⟩

/-- What the text of a lexeme must be for it to stand for a token. -/
def Token.SpelledBy : Token → List Char → Prop
  | number value, text => ∃ read, Number.Literal.read? text = some read ∧ value = .float read
  | name word, text => isName text = true ∧ word = String.ofList text
  | operator op, text => text = [op.glyph]
  | opening, text => text = ['(']
  | closing, text => text = [')']

/-- A piece is one of the spellings of its token. -/
theorem Lexeme.spelledBy_of_token? {lexeme : Lexeme} {token : Token}
    (found : lexeme.token? = some token) : token.SpelledBy lexeme.text := by
  cases lexeme with
  | glyph c =>
    obtain ⟨rfl, rfl⟩ | ⟨rfl, rfl⟩ | ⟨op, rfl, rfl⟩ := Token.ofGlyph?_eq_some found <;> rfl
  | run text =>
    simp only [Lexeme.token?, Token.ofRun?] at found
    split at found
    next value literal =>
      cases found
      exact ⟨value, literal, rfl⟩
    next =>
      split at found
      next spelled =>
        cases found
        exact ⟨spelled, rfl⟩
      next => cases found

/-- Lexemes with the tokens of a term join to a text that reads as the term. -/
theorem Reads.of_lexemes {term : Term} {bound : Nat} {lexemes : List Lexeme}
    (found : lexemes.mapM Lexeme.token? = some term.tokens) (layered : term.Layered bound) :
    Reads bound (lexemes.flatMap Lexeme.text) term := by
  induction term generalizing bound lexemes with
  | number value =>
    obtain ⟨lexeme, others, rfl, token, rest⟩ := mapM_eq_some_cons found
    obtain ⟨read, literal, rfl⟩ := Lexeme.spelledBy_of_token? token
    cases mapM_eq_some_nil rest
    simpa using Reads.number literal
  | name word =>
    obtain ⟨lexeme, others, rfl, token, rest⟩ := mapM_eq_some_cons found
    obtain ⟨spelled, rfl⟩ := Lexeme.spelledBy_of_token? token
    cases mapM_eq_some_nil rest
    simpa using Reads.name spelled
  | group inner inductionHypothesis =>
    obtain ⟨opened, others, rfl, opening, rest⟩ := mapM_eq_some_cons found
    obtain ⟨inside, behind, rfl, innerFound, rest⟩ := mapM_eq_some_append rest
    obtain ⟨closed, others, rfl, closing, rest⟩ := mapM_eq_some_cons rest
    cases mapM_eq_some_nil rest
    have openedText : opened.text = ['('] := Lexeme.spelledBy_of_token? opening
    have closedText : closed.text = [')'] := Lexeme.spelledBy_of_token? closing
    simp only [List.flatMap_cons, List.flatMap_append, List.flatMap_nil, openedText, closedText,
      List.append_nil, List.singleton_append]
    exact .group (inductionHypothesis innerFound layered)
  | operation op left right leftHypothesis rightHypothesis =>
    obtain ⟨before, behind, rfl, leftFound, rest⟩ := mapM_eq_some_append found
    obtain ⟨lexeme, others, rfl, token, rightFound⟩ := mapM_eq_some_cons rest
    have glyph : lexeme.text = [op.glyph] := Lexeme.spelledBy_of_token? token
    simp only [List.flatMap_append, List.flatMap_cons, glyph, List.singleton_append]
    exact .operation layered.1 (leftHypothesis leftFound layered.2.1)
      (rightHypothesis rightFound layered.2.2)

/-- A text reads as a term exactly if its tokens are those of the term and the term keeps the
order of the ranks. -/
theorem reads_iff {bound : Nat} {text : List Char} {term : Term} :
    Reads bound text term ↔ tokens? text = some term.tokens ∧ term.Layered bound := by
  refine ⟨Reads.tokens?, fun ⟨found, layered⟩ => ?_⟩
  simpa only [Lexeme.flatMap_text_ofText] using Reads.of_lexemes found layered

end ParamSweep.Formula
