import ParamSweep.Proofs.Formula.Recursion
import ParamSweep.Proofs.Request.Grammar
import ParamSweep.Proofs.Sweep.Denotation

/-!
# Formulas that can be evaluated are accepted

Two readers look at a formula. When its message is read, the text is cut into declared names and
single characters; when it is prepared, into longest runs between glyphs, each a literal or a name.
The first is the laxer one: where a text reads as a term over declared names, every name in it is a
piece on its own, and so is every character of its literals, its operators and its brackets.

So a message with declarations that are in order and with such formulas is read as they stand. None
of its parts holds a separator, and a formula that can be prepared is not empty. The sweep then runs
into nothing but a space that cannot be made: every name that is looked up is declared.
-/

namespace ParamSweep

open Formula (Operator Reads Term Token)

/-! ### Reading as a term and being spelled -/

namespace Request

variable {names : List (List Char)}

/-- Two texts that are joined from pieces make one that is. -/
theorem IsConcatenation.append {left right : List Char} (onLeft : IsConcatenation names left)
    (onRight : IsConcatenation names right) : IsConcatenation names (left ++ right) := by
  obtain ⟨before, rfl, leftPieces⟩ := onLeft
  obtain ⟨behind, rfl, rightPieces⟩ := onRight
  exact ⟨before ++ behind, List.flatten_append,
    List.forall_mem_append.mpr ⟨leftPieces, rightPieces⟩⟩

/-- A declared name is a piece. -/
theorem isConcatenation_of_mem {name : List Char} (declared : name ∈ names) :
    IsConcatenation names name :=
  ⟨[name], List.append_nil name, List.forall_mem_singleton.mpr (.inl declared)⟩

/-- Characters of formulas are joined from themselves. -/
theorem isConcatenation_of_glyphs {text : List Char}
    (glyphs : ∀ c ∈ text, c.isDigit = true ∨ c ∈ ['.', '+', '-', '*', '/', '^', '(', ')']) :
    IsConcatenation names text := by
  refine ⟨text.map ([·]), List.flatMap_singleton' text, List.forall_mem_map.mpr ?_⟩
  exact fun c member => .inr ⟨c, rfl, glyphs c member⟩

/-- A character of formulas is a piece. -/
theorem isConcatenation_glyph {c : Char}
    (glyph : c.isDigit = true ∨ c ∈ ['.', '+', '-', '*', '/', '^', '(', ')']) :
    IsConcatenation names [c] :=
  isConcatenation_of_glyphs (List.forall_mem_singleton.mpr glyph)

/-- A text that is joined from pieces has the characters of names and those of formulas. -/
theorem IsConcatenation.glyphs {text : List Char} (joined : IsConcatenation names text)
    (named : ∀ name ∈ names, Formula.IsName name) :
    ∀ c ∈ text, c.isLower = true ∨ c.isDigit = true ∨
      c ∈ ['.', '+', '-', '*', '/', '^', '(', ')'] := by
  obtain ⟨pieces, rfl, own⟩ := joined
  intro c member
  obtain ⟨piece, given, inside⟩ := List.mem_flatten.mp member
  obtain declared | ⟨glyph, rfl, allowed⟩ := own piece given
  · exact ((named piece declared).glyphs c inside).imp_right .inl
  · obtain rfl := List.mem_singleton.mp inside
    exact .inr allowed

end Request

/-- A text that reads as a term is spelled from the names of the term. -/
theorem Formula.Reads.isConcatenation {names : List (List Char)} {bound : Nat} {text : List Char}
    {term : Term} (reads : Reads bound text term)
    (declared : ∀ name ∈ term.names, name.toList ∈ names) :
    Request.IsConcatenation names text := by
  induction reads with
  | @number bound text value literal =>
    have isLiteral : Number.Literal.isLiteral text = true := by
      by_contra refused
      simp [Number.Literal.read?, refused] at literal
    obtain ⟨exact, denotes⟩ := (Number.Literal.isLiteral_iff_denotes text).mp isLiteral
    refine Request.isConcatenation_of_glyphs fun c member => ?_
    refine (denotes.isDigit_or_point c member).imp_right ?_
    rintro rfl
    decide
  | @name bound text spelled =>
    have own := declared (String.ofList text) List.mem_cons_self
    rw [String.toList_ofList] at own
    exact Request.isConcatenation_of_mem own
  | group inside inductionHypothesis =>
    have opening : Request.IsConcatenation names ['('] :=
      Request.isConcatenation_glyph (by decide)
    have closing : Request.IsConcatenation names [')'] :=
      Request.isConcatenation_glyph (by decide)
    exact (opening.append (inductionHypothesis declared)).append closing
  | @operation bound op leftText rightText left right allowed onLeft onRight leftHypothesis
      rightHypothesis =>
    obtain ⟨inLeft, inRight⟩ := List.forall_mem_append.mp declared
    have glyph : Request.IsConcatenation names [op.glyph] :=
      Request.isConcatenation_glyph (by cases op <;> decide)
    exact (leftHypothesis inLeft).append (glyph.append (rightHypothesis inRight))

/-! ### Evaluable formulas -/

/-- A text without blanks that can be prepared and whose names are all declared. -/
structure Formula.Evaluable (domains : List Domain) (text : String) : Prop where
  solid : ∀ c ∈ text.toList, Text.isBlank c = false
  prepared : ∃ formula, (Formula.ofText text).prepare = .ok formula
  declared : ∀ tokens, Formula.tokens? text.toList = some tokens →
    ∀ name, .name name ∈ tokens → name ∈ domains.map Domain.name

namespace Formula.Evaluable

variable {domains : List Domain} {text : String}

/-- A text without blanks loses nothing when blanks are removed. -/
theorem stripped_eq (solid : ∀ c ∈ text.toList, Text.isBlank c = false) :
    stripped text = text.toList :=
  List.filter_eq_self.mpr fun c member => by simp [solid c member]

/-- A text without blanks is evaluable exactly if it reads as a term over declared names. -/
theorem iff_reads (solid : ∀ c ∈ text.toList, Text.isBlank c = false) :
    Evaluable domains text ↔
      ∃ term, Reads 3 text.toList term ∧ ∀ name ∈ term.names, name ∈ domains.map Domain.name := by
  have same := stripped_eq solid
  constructor
  · rintro ⟨-, ⟨formula, accepted⟩, declared⟩
    obtain ⟨term, reads⟩ := exists_reads_of_prepare accepted
    rw [same] at reads
    refine ⟨term, reads, fun name used => ?_⟩
    rw [term.names_eq] at used
    obtain ⟨token, given, own⟩ := List.mem_filterMap.mp used
    exact declared _ reads.tokens?.1 name (Token.name?_eq_some.mp own ▸ given)
  · rintro ⟨term, reads, declared⟩
    obtain ⟨formula, accepted, -⟩ := (same ▸ reads : Reads 3 (stripped text) term).prepare
    refine ⟨solid, ⟨formula, accepted⟩, fun tokens found name given => declared name ?_⟩
    obtain rfl := Option.some.inj (found.symm.trans reads.tokens?.1)
    rw [term.names_eq]
    exact List.mem_filterMap.mpr ⟨_, given, rfl⟩

/-- An evaluable text is joined from declared names and characters of formulas. -/
theorem allowed (evaluable : Evaluable domains text) : Sweep.Allows domains text.toList := by
  obtain ⟨term, reads, declared⟩ := (iff_reads evaluable.solid).mp evaluable
  refine reads.isConcatenation fun name used => ?_
  obtain ⟨domain, listed, rfl⟩ := List.mem_map.mp (declared name used)
  exact List.mem_map.mpr ⟨domain, listed, rfl⟩

/-- No evaluable text is empty. -/
theorem ne_nil (evaluable : Evaluable domains text) : text.toList ≠ [] := by
  obtain ⟨term, reads, -⟩ := (iff_reads evaluable.solid).mp evaluable
  exact fun nothing => not_grammatical_nil (nothing ▸ reads.grammatical)

/-- Evaluable formulas have a value at every point of a space over their domains. -/
theorem exists_denotes {space : Space} {formulas : List String}
    (evaluable : ∀ formula ∈ formulas, Evaluable space.domains formula) :
    ∃ values, Sweep.Denotes space formulas (.ok values) := by
  induction formulas with
  | nil => exact ⟨_, .nothing⟩
  | cons formula formulas inductionHypothesis =>
    obtain ⟨first, rest⟩ := List.forall_mem_cons.mp evaluable
    obtain ⟨others, denotes⟩ := inductionHypothesis rest
    obtain ⟨term, reads, declared⟩ := (iff_reads first.solid).mp first
    rw [← stripped_eq first.solid] at reads
    obtain ⟨values, each⟩ := Sweep.exists_values fun _ => declared
    exact ⟨_, .evaluated reads (fun _ => declared) each denotes⟩

end Formula.Evaluable

/-! ### Messages -/

namespace Sweep

open Text (FieldsOf)

/-- The field of some declarations, with a number of commas more than it needs. -/
def declarationField (declarations : List (List Char)) (commas : Nat) : List Char :=
  [','].intercalate (declarations ++ List.replicate commas [])

/-- A message that asks for a sweep over declared domains with some formulas. It may have more
separators at its end, and at that of its declarations, than it needs. -/
def message (aggregate : Aggregate) (kind : SpaceKind) (declarations : List (List Char))
    (formulas : List String) (commas semicolons : Nat) : String :=
  let command := aggregate.word.toList ++ '_' :: kind.word.toList
  let fields := command :: declarationField declarations commas :: formulas.map String.toList
  String.ofList ([';'].intercalate (fields ++ List.replicate semicolons []))

/-- The command of a message ends at the first separator. -/
theorem not_mem_command (aggregate : Aggregate) (kind : SpaceKind) :
    ';' ∉ aggregate.word.toList ++ '_' :: kind.word.toList := by
  cases aggregate <;> cases kind <;> decide

section

variable {domains : List Domain} {declarations : List (List Char)}
  (read : List.Forall₂ (fun declaration domain => Domain.read declaration = .ok domain)
    declarations domains)

include read

/-- Each declaration declares one of the domains. -/
theorem exists_spells : ∀ declaration ∈ declarations, ∃ name lower step upper,
    Domain.Spells declaration name lower step upper := by
  intro declaration member
  obtain ⟨place, inside, rfl⟩ := List.mem_iff_getElem.mp member
  exact ⟨_, _, _, _, Domain.spells_of_read (read.get inside (read.length_eq ▸ inside))⟩

/-- Declared domains have names. -/
theorem isName_of_mem : ∀ domain ∈ domains, Formula.IsName domain.name.toList := by
  intro domain member
  obtain ⟨place, inside, rfl⟩ := List.mem_iff_getElem.mp member
  exact (Domain.spells_of_read (read.get (read.length_eq ▸ inside) inside)).isName

/-- Declarations that are in order are the fields that commas join. -/
theorem fieldsOf_declarations (commas : Nat) :
    FieldsOf ',' (declarationField declarations commas) declarations where
  apart declaration member inside := by
    obtain ⟨_, _, _, _, spells⟩ := exists_spells read declaration member
    exact absurd (spells.glyphs ',' inside) (by decide)
  last empty := by
    obtain ⟨_, _, _, _, spells⟩ := exists_spells read [] (List.mem_of_getLast? empty)
    obtain ⟨_, _, _, nothing, -⟩ := spells.parts
    exact absurd nothing (by simp)
  joined := ⟨commas, rfl⟩

/-- The field of some declarations lists their domains, with any number of commas at its end. -/
theorem lists_declarations (some : domains ≠ []) (commas : Nat) :
    Lists (declarationField declarations commas) domains :=
  ⟨some, declarations, fieldsOf_declarations read commas,
    read.imp fun _ _ accepted => Domain.read_iff_declares.mp accepted⟩

/-- The parts of a message with evaluable formulas are its fields. -/
theorem fieldsOf_message (aggregate : Aggregate) (kind : SpaceKind) {formulas : List String}
    (some : formulas ≠ []) (evaluable : ∀ formula ∈ formulas, Formula.Evaluable domains formula)
    (commas semicolons : Nat) :
    FieldsOf ';' (message aggregate kind declarations formulas commas semicolons).toList
      ((aggregate.word.toList ++ '_' :: kind.word.toList) ::
        declarationField declarations commas :: formulas.map String.toList) where
  apart := by
    refine List.forall_mem_cons.mpr ⟨not_mem_command aggregate kind,
      List.forall_mem_cons.mpr ⟨?_, List.forall_mem_map.mpr fun formula given inside => ?_⟩⟩
    · refine Text.not_mem_intercalate (by decide) (List.forall_mem_append.mpr ⟨?_, ?_⟩)
      · intro declaration member inside
        obtain ⟨_, _, _, _, spells⟩ := exists_spells read declaration member
        exact absurd (spells.glyphs ';' inside) (by decide)
      · intro blank member
        rw [List.eq_of_mem_replicate member]
        exact List.not_mem_nil
    · have named : ∀ name ∈ domains.map (·.name.toList), Formula.IsName name :=
        List.forall_mem_map.mpr (isName_of_mem read)
      exact absurd ((evaluable formula given).allowed.glyphs named ';' inside) (by decide)
  last empty := by
    obtain ⟨first, rest, rfl⟩ := List.exists_cons_of_ne_nil some
    rw [List.map_cons, List.getLast?_cons_cons, List.getLast?_cons_cons] at empty
    have member : [] ∈ (first :: rest).map String.toList := List.mem_of_getLast? empty
    obtain ⟨formula, given, nothing⟩ := List.mem_map.mp member
    exact (evaluable formula given).ne_nil nothing
  joined := ⟨semicolons, String.toList_ofList⟩

end

/-- Only its size can speak against a grid. -/
theorem fault_of_make_grid {domains : List Domain} {fault : Fault}
    (refused : Space.make domains .grid = .error fault) : fault = .argument .spaceTooLarge := by
  simp only [Space.make] at refused
  split at refused
  next => cases refused
  next => exact (Except.error.inj refused).symm

/-- A sweep with evaluable formulas fails exactly if its space cannot be made. -/
theorem run_eq_error_of_evaluable {sweep : Sweep} (wanted : sweep.aggregate ≠ .count)
    (evaluable : ∀ formula ∈ sweep.formulas, Formula.Evaluable sweep.domains formula)
    {fault : Fault} (failed : sweep.run = .error fault) :
    Space.make sweep.domains sweep.kind = .error fault := by
  cases accepted : Space.make sweep.domains sweep.kind with
  | error other =>
    obtain rfl := Except.error.inj ((sweep.run_of_refused accepted).symm.trans failed)
    rfl
  | ok space =>
    obtain ⟨same, -, -⟩ := Space.make_eq_ok accepted
    rw [← same] at evaluable
    obtain ⟨values, denotes⟩ := Formula.Evaluable.exists_denotes evaluable
    rw [sweep.run_of_aggregate accepted wanted denotes] at failed
    cases failed

/-- Nothing that can be evaluated is refused. Whatever the declared domains, a text without blanks
that can be prepared and whose names are declared is spelled as a formula may be. So if declarations
are in order and there is at least one formula, all of this kind, then the message that joins them
is read as a sweep over these domains with these formulas, whatever separators follow its end or
that of the declarations; and the sweep has an answer, unless the grid over its domains is too large
or the sizes of its list do not match.

Proof: by induction on how the text reads as a term, for the spelling. No part of the message holds
one of its separators, so the parts are the fields. The denotation of the formulas is no fault,
since none of the names of their terms is undeclared. -/
theorem evaluable_accepted (domains : List Domain) :
    (∀ text, Formula.Evaluable domains text →
      Request.isSpelled (domains.map (·.name.toList)) text.toList = true) ∧
    ∀ aggregate kind declarations formulas, aggregate ≠ .count → domains ≠ [] → formulas ≠ [] →
      List.Forall₂ (fun declaration domain => Domain.read declaration = .ok domain)
        declarations domains →
      (∀ formula ∈ formulas, Formula.Evaluable domains formula) →
      (∀ commas semicolons,
        read (message aggregate kind declarations formulas commas semicolons) =
          .ok { aggregate, kind, domains, formulas }) ∧
        ((∃ answer, run { aggregate, kind, domains, formulas } = .ok answer) ∨
          kind = .grid ∧ run { aggregate, kind, domains, formulas } =
            .error (.argument .spaceTooLarge) ∨
          kind = .list ∧ run { aggregate, kind, domains, formulas } =
            .error (.argument .sizeMismatch)) := by
  refine ⟨fun text evaluable => ?_, ?_⟩
  · exact (Request.isSpelled_iff _).mpr evaluable.allowed
  · intro aggregate kind declarations formulas wanted declared some inOrder evaluable
    constructor
    · intro commas semicolons
      have spelled : ∀ formula ∈ formulas.map String.toList, Allows domains formula :=
        List.forall_mem_map.mpr fun formula given => (evaluable formula given).allowed
      have given : readFormulas domains (formulas.map String.toList) = .ok formulas :=
        readFormulas_eq_ok.mpr ⟨by simpa using some, spelled, by simp⟩
      have lists := lists_declarations inOrder declared commas
      have cut := fieldsOf_message inOrder aggregate kind some evaluable commas semicolons
      rw [read_of_fields cut rfl, readDomains_eq_ok.mpr lists]
      simp only [Except.bind, if_neg wanted, given]
      rfl
    · cases ended : run { aggregate, kind, domains, formulas } with
      | ok answer => exact .inl ⟨answer, rfl⟩
      | error fault =>
        have refused := run_eq_error_of_evaluable wanted evaluable ended
        cases kind with
        | grid => exact .inr (.inl ⟨rfl, by rw [fault_of_make_grid refused]⟩)
        | list =>
          obtain ⟨rfl, -⟩ := (Space.make_list_eq_error_iff domains fault).mp refused
          exact .inr (.inr ⟨rfl, rfl⟩)

/-- Two values of `x` and three of `x1`. -/
def prefixed : List Domain :=
  [{ name := "x", lower := 0, step := 1, upper := 1, size := 2 },
    { name := "x1", lower := 10, step := 5, upper := 20, size := 3 }]

/-- The name `x` and the character `1` are pieces, too, but the formula reads only one way. -/
theorem evaluable_accepted_prefixed :
    read (message .least .grid ["x:0:1:1".toList, "x1:10:5:20".toList] ["x1*x"] 0 0) =
        .ok { aggregate := .least, kind := .grid, domains := prefixed, formulas := ["x1*x"] } ∧
      ∃ answer,
        run { aggregate := .least, kind := .grid, domains := prefixed, formulas := ["x1*x"] } =
          .ok answer := by
  have reads : Reads 3 ("x1".toList ++ Operator.mul.glyph :: "x".toList)
      (.operation .mul (.name "x1") (.name "x")) :=
    .operation (by decide) (.name rfl) (.name rfl)
  have evaluable : ∀ formula ∈ ["x1*x"], Formula.Evaluable prefixed formula := by
    have solid : "x1*x".toList.all (Text.isBlank · = false) = true := by decide
    refine List.forall_mem_singleton.mpr ((Formula.Evaluable.iff_reads ?_).mpr ?_)
    · simpa only [List.all_eq_true, decide_eq_true_eq] using solid
    · exact ⟨_, reads, by decide⟩
  have inOrder : List.Forall₂ (fun declaration domain => Domain.read declaration = .ok domain)
      ["x:0:1:1".toList, "x1:10:5:20".toList] prefixed := .cons rfl (.cons rfl .nil)
  have accepted : Space.make prefixed .grid = .ok ⟨prefixed, .grid, 6⟩ := rfl
  obtain ⟨known, answered | ⟨-, refused⟩ | ⟨impossible, -⟩⟩ :=
    (evaluable_accepted prefixed).2 .least .grid _ ["x1*x"] (by decide) (by decide) (by decide)
      inOrder evaluable
  · exact ⟨known 0 0, answered⟩
  · cases accepted.symm.trans (run_eq_error_of_evaluable (by decide) evaluable refused)
  · cases impossible

end Sweep

end ParamSweep
