import ParamSweep.Proofs.Domain.Declaration
import ParamSweep.Proofs.Number.Reading

/-!
# Where a text is cut

There is one way to cut a text into the seven characters that are tokens on their own and the runs
between them, and the lexemes of a text are cut like this. Each piece has one token or none: a
character always has one, a run if it is a literal or a name. So no character of a text is lost or
read twice, and of two neighbouring tokens one is no operand.
-/

namespace ParamSweep.Formula

open Number (IsNearest)
open Number.Literal (Denotes read?)

/-- The characters that are tokens on their own. -/
def glyphs : List Char := ['(', ')', '+', '-', '*', '/', '^']

namespace Lexeme

/-- Whether a lexeme is a run. -/
def isRun : Lexeme → Bool
  | glyph _ => false
  | run _ => true

/-- A character of the seven, or a run that has some characters and none of these. -/
def Proper : Lexeme → Prop
  | glyph c => c ∈ glyphs
  | run text => text ≠ [] ∧ ∀ c ∈ text, c ∉ glyphs

/-- What the text of a piece says. -/
inductive Spells : Lexeme → Token → Prop
  | opening : Spells (glyph '(') .opening
  | closing : Spells (glyph ')') .closing
  | operator (op : Operator) : Spells (glyph op.glyph) (.operator op)
  | number {text : List Char} {exact : ℚ} {value : Float} (denotes : Denotes text exact)
      (near : IsNearest exact value) (read : read? text = some value) :
      Spells (run text) (.number (.float value))
  | name {text : List Char} (isName : IsName text) :
      Spells (run text) (.name (String.ofList text))

end Lexeme

/-- The pieces of a text. Two runs never stand side by side, so no run can be longer. -/
structure IsCut (text : List Char) (pieces : List Lexeme) : Prop where
  joined : pieces.flatMap Lexeme.text = text
  proper : ∀ piece ∈ pieces, piece.Proper
  apart : pieces.IsChain fun left right => ¬ (left.isRun = true ∧ right.isRun = true)

/-- The texts of operands: `[0-9]+(.[0-9]+)?` and `[a-z][a-z0-9]*`. -/
def IsOperandText (text : List Char) : Prop := (∃ exact, Denotes text exact) ∨ IsName text

/-- What comes of a text that is cut into pieces. -/
structure Tokenized (text : List Char) (pieces : List Lexeme) : Prop where
  cut : IsCut text pieces
  only : ∀ others, IsCut text others → others = pieces
  spells : ∀ tokens, orMalformed (tokens? text) = .ok tokens ↔
    List.Forall₂ Lexeme.Spells pieces tokens
  accepted : (∃ tokens, orMalformed (tokens? text) = .ok tokens) ↔
    ∀ run, .run run ∈ pieces → IsOperandText run
  refused : orMalformed (tokens? text) = .error .malformed ↔
    ∃ run, .run run ∈ pieces ∧ ¬ IsOperandText run
  apart : ∀ tokens, orMalformed (tokens? text) = .ok tokens →
    tokens.IsChain fun left right => ¬ (left.isOperand = true ∧ right.isOperand = true)

/-! ### Glyphs and runs -/

/-- A character that is no operator and no bracket has no token of its own. -/
theorem Token.ofGlyph?_eq_none_iff (c : Char) : ofGlyph? c = none ↔ c ∉ glyphs := by
  constructor
  · intro none member
    simp only [glyphs, List.mem_cons, List.not_mem_nil, or_false] at member
    obtain rfl | rfl | rfl | rfl | rfl | rfl | rfl := member <;> cases none
  · intro outside
    cases found : ofGlyph? c with
    | none => rfl
    | some token =>
      obtain ⟨rfl, -⟩ | ⟨rfl, -⟩ | ⟨op, rfl, -⟩ := ofGlyph?_eq_some found
      · exact absurd (by decide) outside
      · exact absurd (by decide) outside
      · cases op <;> exact absurd (by decide) outside

/-- A piece stands for a token exactly if its text says it. -/
theorem Lexeme.token?_eq_some {piece : Lexeme} {token : Token} :
    piece.token? = some token ↔ piece.Spells token := by
  constructor
  · intro found
    cases piece with
    | glyph c =>
      obtain ⟨rfl, rfl⟩ | ⟨rfl, rfl⟩ | ⟨op, rfl, rfl⟩ := Token.ofGlyph?_eq_some found
      · exact .opening
      · exact .closing
      · exact .operator op
    | run text =>
      simp only [token?, Token.ofRun?] at found
      split at found
      next value literal =>
        cases found
        obtain ⟨⟨exact, denotes⟩, rfl⟩ := Number.Literal.read?_eq_some.mp literal
        exact .number denotes denotes.isNearest literal
      next =>
        split at found
        next spelled =>
          cases found
          exact .name ((isName_iff text).mp spelled)
        next => cases found
  · rintro (_ | _ | op | ⟨denotes, near, read⟩ | isName)
    · rfl
    · rfl
    · exact Token.ofGlyph?_glyph op
    · rw [token?, Token.ofRun?, read]
    · have spelled := (isName_iff _).mpr isName
      rw [token?, Token.ofRun?, read?_name spelled]
      exact if_pos spelled

/-- Every operator and every bracket has one. -/
theorem Token.exists_ofGlyph? {c : Char} (member : c ∈ glyphs) :
    ∃ token, ofGlyph? c = some token :=
  Option.ne_none_iff_exists'.mp (mt (ofGlyph?_eq_none_iff c).mp (not_not_intro member))

/-! ### The cut -/

/-- A piece that is no run may stand in front of all others. -/
theorem IsCut.glyph {text : List Char} {pieces : List Lexeme} (cut : IsCut text pieces) {c : Char}
    (member : c ∈ glyphs) : IsCut (c :: text) (.glyph c :: pieces) := by
  refine ⟨congrArg (c :: ·) cut.joined, List.forall_mem_cons.mpr ⟨member, cut.proper⟩, ?_⟩
  refine List.isChain_cons.mpr ⟨fun next _ both => ?_, cut.apart⟩
  cases both.1

/-- A character in front of a text leaves a cut of the whole. -/
theorem IsCut.attach {text : List Char} {pieces : List Lexeme} (cut : IsCut text pieces)
    (c : Char) : IsCut (c :: text) (Lexeme.attach c pieces) := by
  by_cases member : c ∈ glyphs
  · obtain ⟨token, alone⟩ := Token.exists_ofGlyph? member
    have attached : Lexeme.attach c pieces = .glyph c :: pieces := by
      simp only [Lexeme.attach, alone]
    rw [attached]
    exact cut.glyph member
  have alone := (Token.ofGlyph?_eq_none_iff c).mpr member
  have single : (Lexeme.run [c]).Proper :=
    ⟨List.cons_ne_nil _ _, List.forall_mem_singleton.mpr member⟩
  cases pieces with
  | nil =>
    obtain rfl : [] = text := cut.joined
    have attached : Lexeme.attach c [] = [.run [c]] := by simp only [Lexeme.attach, alone]
    rw [attached]
    exact ⟨rfl, List.forall_mem_singleton.mpr single, .singleton _⟩
  | cons piece others =>
    cases piece with
    | glyph d =>
      have attached : Lexeme.attach c (.glyph d :: others) = .run [c] :: .glyph d :: others := by
        simp only [Lexeme.attach, alone]
      rw [attached]
      refine ⟨congrArg (c :: ·) cut.joined, List.forall_mem_cons.mpr ⟨single, cut.proper⟩, ?_⟩
      refine List.isChain_cons_cons.mpr ⟨fun both => ?_, cut.apart⟩
      cases both.2
    | run ordinary =>
      have attached :
          Lexeme.attach c (.run ordinary :: others) = .run (c :: ordinary) :: others := by
        simp only [Lexeme.attach, alone]
      obtain ⟨⟨-, each⟩, proper⟩ := List.forall_mem_cons.mp cut.proper
      rw [attached]
      refine ⟨congrArg (c :: ·) cut.joined, List.forall_mem_cons.mpr ⟨?_, proper⟩, ?_⟩
      · exact ⟨List.cons_ne_nil _ _, List.forall_mem_cons.mpr ⟨member, each⟩⟩
      · exact List.isChain_cons.mpr (List.isChain_cons.mp cut.apart)

/-- The lexemes of a text are a cut of it. -/
theorem isCut_ofText (text : List Char) : IsCut text (Lexeme.ofText text) := by
  induction text with
  | nil => exact ⟨rfl, List.forall_mem_nil _, .nil⟩
  | cons c rest inductionHypothesis => exact inductionHypothesis.attach c

/-- There is no other cut of a text.

Proof: a run ends where the text ends or where the glyph of the next piece stands. -/
theorem IsCut.eq_ofText {text : List Char} {pieces : List Lexeme} (cut : IsCut text pieces) :
    pieces = Lexeme.ofText text := by
  obtain ⟨rfl, proper, apart⟩ := cut
  induction pieces with
  | nil => rfl
  | cons piece others inductionHypothesis =>
    obtain ⟨own, rest⟩ := List.forall_mem_cons.mp proper
    have behind := inductionHypothesis rest apart.tail
    cases piece with
    | glyph c =>
      obtain ⟨token, alone⟩ := Token.exists_ofGlyph? own
      have whole := Lexeme.ofText_append_glyph [] (others.flatMap Lexeme.text) alone
      exact (congrArg (Lexeme.glyph c :: ·) behind).trans whole.symm
    | run text =>
      have single := Lexeme.ofText_run own.1 fun c member =>
        (Token.ofGlyph?_eq_none_iff c).mpr (own.2 c member)
      cases others with
      | nil =>
        rw [List.flatMap_singleton]
        exact single.symm
      | cons next others =>
        cases next with
        | glyph c =>
          obtain ⟨member, -⟩ := List.forall_mem_cons.mp rest
          obtain ⟨token, alone⟩ := Token.exists_ofGlyph? member
          have whole := Lexeme.ofText_append_glyph text (others.flatMap Lexeme.text) alone
          have tail := Lexeme.ofText_append_glyph [] (others.flatMap Lexeme.text) alone
          rw [single] at whole
          exact (congrArg (Lexeme.run text :: ·) (behind.trans tail)).trans whole.symm
        | run next => exact absurd ⟨rfl, rfl⟩ (List.isChain_cons_cons.mp apart).1

/-! ### The tokens -/

/-- A result that is there is given. -/
theorem orMalformed_eq_ok {α : Type} {result : Option α} {value : α} :
    orMalformed result = .ok value ↔ result = some value := by
  cases result <;> simp [orMalformed]

/-- A result that is not there is an error. -/
theorem orMalformed_eq_error {α : Type} {result : Option α} :
    orMalformed result = .error .malformed ↔ ¬ ∃ value, result = some value := by
  cases result <;> simp [orMalformed]

/-- A text has the tokens that its pieces spell, one for each. -/
theorem tokens?_eq_some {text : List Char} {tokens : List Token} :
    tokens? text = some tokens ↔ List.Forall₂ Lexeme.Spells (Lexeme.ofText text) tokens := by
  rw [Formula.tokens?, mapM_eq_some]
  simp only [Lexeme.token?_eq_some]

/-- A run spells a token if it is a literal or a name. -/
theorem Lexeme.exists_spells_run (text : List Char) :
    (∃ token, (run text).Spells token) ↔ IsOperandText text := by
  constructor
  · rintro ⟨token, spells⟩
    cases spells with
    | number denotes => exact .inl ⟨_, denotes⟩
    | name isName => exact .inr isName
  · rintro (⟨exact, denotes⟩ | isName)
    · have read := Number.Literal.read?_eq_some.mpr ⟨⟨exact, denotes⟩, rfl⟩
      exact ⟨_, .number denotes denotes.isNearest read⟩
    · exact ⟨_, .name isName⟩

/-- One of the seven characters always spells a token. -/
theorem Lexeme.exists_spells_glyph {c : Char} (member : c ∈ glyphs) :
    ∃ token, (glyph c).Spells token := by
  obtain ⟨token, alone⟩ := Token.exists_ofGlyph? member
  exact ⟨token, token?_eq_some.mp alone⟩

/-- A list of pieces has tokens if each of its runs is the text of an operand. -/
theorem exists_tokens_iff {pieces : List Lexeme} (proper : ∀ piece ∈ pieces, piece.Proper) :
    (∃ tokens, List.Forall₂ Lexeme.Spells pieces tokens) ↔
      ∀ run, .run run ∈ pieces → IsOperandText run := by
  induction pieces with
  | nil => exact ⟨fun _ run member => absurd member List.not_mem_nil, fun _ => ⟨[], .nil⟩⟩
  | cons piece others inductionHypothesis =>
    obtain ⟨own, rest⟩ := List.forall_mem_cons.mp proper
    constructor
    · rintro ⟨tokens, spells⟩ run member
      obtain _ | ⟨first, behind⟩ := spells
      obtain rfl | member := List.mem_cons.mp member
      · exact (Lexeme.exists_spells_run run).mp ⟨_, first⟩
      · exact (inductionHypothesis rest).mp ⟨_, behind⟩ run member
    · intro operands
      obtain ⟨tokens, behind⟩ := (inductionHypothesis rest).mpr fun run member =>
        operands run (List.mem_cons_of_mem _ member)
      have first : ∃ token, piece.Spells token := by
        cases piece with
        | glyph c => exact Lexeme.exists_spells_glyph own
        | run text => exact (Lexeme.exists_spells_run text).mpr (operands text List.mem_cons_self)
      obtain ⟨token, spells⟩ := first
      exact ⟨token :: tokens, .cons spells behind⟩

/-- The operands among the tokens are the runs among the pieces. -/
theorem map_isOperand {pieces : List Lexeme} {tokens : List Token}
    (spells : List.Forall₂ Lexeme.Spells pieces tokens) :
    tokens.map Token.isOperand = pieces.map Lexeme.isRun := by
  induction spells with
  | nil => rfl
  | cons first _ inductionHypothesis =>
    rw [List.map_cons, List.map_cons, inductionHypothesis]
    cases first <;> rfl

/-- Every text is cut in exactly one way into the seven characters and the runs between them. It has
tokens if every run is a literal or a name, one token for each piece in the order of the text and
with what the piece says, and no two operands among them are neighbours. If some run is neither, the
text is malformed. -/
theorem exists_tokenized (text : List Char) : ∃ pieces, Tokenized text pieces := by
  have cut := isCut_ofText text
  have spells (tokens : List Token) : orMalformed (tokens? text) = .ok tokens ↔
      List.Forall₂ Lexeme.Spells (Lexeme.ofText text) tokens :=
    orMalformed_eq_ok.trans tokens?_eq_some
  have accepted := exists_tokens_iff cut.proper
  refine ⟨Lexeme.ofText text, cut, fun others other => other.eq_ofText, spells, ?_, ?_, ?_⟩
  · simp only [spells, accepted]
  · rw [orMalformed_eq_error]
    simp only [tokens?_eq_some, accepted, not_forall, exists_prop]
  · intro tokens found
    have same := map_isOperand ((spells tokens).mp found)
    have apart : ((Lexeme.ofText text).map Lexeme.isRun).IsChain
        fun left right => ¬ (left = true ∧ right = true) :=
      (List.isChain_map Lexeme.isRun).mpr cut.apart
    rw [← same] at apart
    exact (List.isChain_map Token.isOperand).mp apart

/-- The point does not cut, and neither does a character that no token has. -/
example : Lexeme.ofText "(x1+2.5)*é".toList = [.glyph '(', .run ['x', '1'], .glyph '+',
    .run ['2', '.', '5'], .glyph ')', .glyph '*', .run ['é']] := by
  decide

end ParamSweep.Formula
