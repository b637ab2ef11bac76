import ParamSweep.Text.Fields

/-!
# Which lists are the pieces and the fields of a text

A text is cut into the one list of pieces without the separator that gives the text back when it is
joined. Its fields are the one list of such pieces that gives the text back with some empty pieces
behind it, and that does not end in an empty piece itself.
-/

namespace ParamSweep.Text

/-- The fields of a text between separators, where empty fields at the end do not count. -/
structure FieldsOf (separator : Char) (text : List Char) (fields : List (List Char)) : Prop where
  apart : ∀ field ∈ fields, separator ∉ field
  last : fields.getLast? ≠ some []
  joined : ∃ blanks, text = [separator].intercalate (fields ++ List.replicate blanks [])

/-- A separator begins a new piece, and any other character belongs to the first one. -/
theorem pieces_cons (separator c : Char) (text : List Char) :
    pieces separator (c :: text) =
      if c = separator then [] :: pieces separator text
      else extendFirst c (pieces separator text) := rfl

/-- Cutting a text into pieces is splitting the list of its characters. -/
theorem pieces_eq_splitOn (separator : Char) (text : List Char) :
    pieces separator text = text.splitOn separator := by
  induction text with
  | nil => rfl
  | cons c text inductionHypothesis =>
    have extended : extendFirst c (text.splitOn separator) =
        (text.splitOn separator).modifyHead (List.cons c) := by
      cases cut : text.splitOn separator with
      | nil => exact absurd cut (List.splitOn_ne_nil _ _)
      | cons piece rest => rfl
    rw [pieces_cons, inductionHypothesis, extended, List.splitOn_cons_eq_if_modifyHead]
    simp only [beq_iff_eq]

/-- No piece holds the separator. -/
theorem apart_pieces (separator : Char) (text : List Char) :
    ∀ piece ∈ pieces separator text, separator ∉ piece := by
  induction text with
  | nil => simp [pieces]
  | cons c text inductionHypothesis =>
    rw [pieces_cons]
    split
    next => simpa using inductionHypothesis
    next other =>
      cases cut : pieces separator text with
      | nil => simpa [extendFirst] using Ne.symm other
      | cons first rest =>
        rw [cut] at inductionHypothesis
        obtain ⟨own, others⟩ := List.forall_mem_cons.mp inductionHypothesis
        refine List.forall_mem_cons.mpr ⟨?_, others⟩
        simp [Ne.symm other, own]

/-- A joined text holds no more than what was joined and the separators between. -/
theorem not_mem_intercalate {separator c : Char} {parts : List (List Char)} (other : c ≠ separator)
    (apart : ∀ part ∈ parts, c ∉ part) : c ∉ [separator].intercalate parts := by
  induction parts with
  | nil => exact List.not_mem_nil
  | cons part rest inductionHypothesis =>
    obtain ⟨own, others⟩ := List.forall_mem_cons.mp apart
    cases rest with
    | nil => simpa [List.intercalate] using own
    | cons next rest =>
      have behind := inductionHypothesis others
      rw [List.intercalate_cons_cons]
      simp [own, other, behind]

/-- A text has one list of pieces. -/
theorem pieces_eq_iff {separator : Char} {text : List Char} {parts : List (List Char)}
    (some : parts ≠ []) :
    pieces separator text = parts ↔
      (∀ part ∈ parts, separator ∉ part) ∧ text = [separator].intercalate parts := by
  constructor
  · rintro rfl
    refine ⟨apart_pieces separator text, ?_⟩
    rw [pieces_eq_splitOn, List.intercalate_splitOn]
  · rintro ⟨apart, rfl⟩
    rw [pieces_eq_splitOn, List.splitOn_intercalate _ apart some]

/-- A separator ends the pieces in front of it and starts the pieces behind it. -/
theorem pieces_append_cons (separator : Char) (text behind : List Char) :
    pieces separator (text ++ separator :: behind) =
      pieces separator text ++ pieces separator behind := by
  induction text with
  | nil =>
    rw [List.nil_append, pieces_cons, if_pos rfl]
    rfl
  | cons c text inductionHypothesis =>
    rw [List.cons_append, pieces_cons, pieces_cons, inductionHypothesis]
    split
    next => rfl
    next =>
      cases cut : pieces separator text with
      | nil => exact absurd (pieces_eq_splitOn separator text ▸ cut) (List.splitOn_ne_nil _ _)
      | cons first rest => rfl

/-- Every separator behind a text adds one empty piece. -/
theorem pieces_append_replicate (separator : Char) (text : List Char) (count : Nat) :
    pieces separator (text ++ List.replicate count separator) =
      pieces separator text ++ List.replicate count [] := by
  induction count with
  | zero => rw [List.replicate_zero, List.replicate_zero, List.append_nil, List.append_nil]
  | succ count inductionHypothesis =>
    rw [List.replicate_succ', ← List.append_assoc, pieces_append_cons, inductionHypothesis,
      List.replicate_succ', List.append_assoc]
    rfl

/-- A piece is dropped if it is empty and nothing is left behind it. -/
theorem dropTrailingEmpty_cons (piece : List Char) (rest : List (List Char)) :
    dropTrailingEmpty (piece :: rest) =
      if piece.isEmpty && (dropTrailingEmpty rest).isEmpty then []
      else piece :: dropTrailingEmpty rest := rfl

/-- Pieces are what is left when the empty ones at the end are dropped, and those. -/
theorem exists_blanks (pieces : List (List Char)) :
    ∃ blanks, pieces = dropTrailingEmpty pieces ++ List.replicate blanks [] := by
  induction pieces with
  | nil => exact ⟨0, rfl⟩
  | cons piece rest inductionHypothesis =>
    obtain ⟨blanks, parts⟩ := inductionHypothesis
    rw [dropTrailingEmpty_cons]
    split
    next empty =>
      obtain ⟨nothing, none⟩ := Bool.and_eq_true_iff.mp empty
      rw [List.isEmpty_iff.mp none, List.nil_append] at parts
      exact ⟨blanks + 1, by rw [List.isEmpty_iff.mp nothing, parts]; rfl⟩
    next => exact ⟨blanks, congrArg (piece :: ·) parts⟩

/-- What is left does not end in an empty piece. -/
theorem getLast?_dropTrailingEmpty (pieces : List (List Char)) :
    (dropTrailingEmpty pieces).getLast? ≠ some [] := by
  induction pieces with
  | nil => simp [dropTrailingEmpty]
  | cons piece rest inductionHypothesis =>
    rw [dropTrailingEmpty_cons]
    split
    next => simp
    next filled =>
      cases kept : dropTrailingEmpty rest with
      | nil => simpa [kept] using filled
      | cons next others =>
        rw [kept] at inductionHypothesis
        rwa [List.getLast?_cons_cons]

/-- Empty pieces are dropped from the end, as many as there are. -/
theorem dropTrailingEmpty_append_replicate {fields : List (List Char)}
    (last : fields.getLast? ≠ some []) (blanks : Nat) :
    dropTrailingEmpty (fields ++ List.replicate blanks []) = fields := by
  induction fields with
  | nil =>
    induction blanks with
    | zero => rfl
    | succ blanks inductionHypothesis =>
      rw [List.nil_append] at inductionHypothesis ⊢
      rw [List.replicate_succ, dropTrailingEmpty_cons, inductionHypothesis]
      rfl
  | cons field rest inductionHypothesis =>
    have others : dropTrailingEmpty (rest ++ List.replicate blanks []) = rest := by
      refine inductionHypothesis fun ends => last ?_
      rw [List.getLast?_cons, ends, Option.getD_some]
    rw [List.cons_append, dropTrailingEmpty_cons, others, if_neg]
    intro empty
    obtain ⟨nothing, none⟩ := Bool.and_eq_true_iff.mp empty
    rw [List.isEmpty_iff.mp nothing, List.isEmpty_iff.mp none] at last
    exact last rfl

/-- Separators behind a text add no field. -/
theorem fields_append_replicate (separator : Char) (text : List Char) (count : Nat) :
    fields separator (text ++ List.replicate count separator) = fields separator text := by
  obtain ⟨blanks, whole⟩ := exists_blanks (pieces separator text)
  rw [fields, pieces_append_replicate, whole, List.append_assoc, List.replicate_append_replicate,
    dropTrailingEmpty_append_replicate (getLast?_dropTrailingEmpty _)]
  rfl

/-- A text has one list of fields. -/
theorem fields_eq_iff {separator : Char} {text : List Char} {parts : List (List Char)} :
    fields separator text = parts ↔ FieldsOf separator text parts := by
  constructor
  · rintro rfl
    obtain ⟨blanks, whole⟩ := exists_blanks (pieces separator text)
    have nonempty : pieces separator text ≠ [] := by
      rw [pieces_eq_splitOn]
      exact List.splitOn_ne_nil _ _
    obtain ⟨apart, joined⟩ := (pieces_eq_iff nonempty).mp rfl
    refine ⟨fun field member => apart field ?_, getLast?_dropTrailingEmpty _, blanks, ?_⟩
    · rw [whole]
      exact List.mem_append_left _ member
    · rwa [whole] at joined
  · rintro ⟨apart, last, blanks, rfl⟩
    rw [fields]
    by_cases nothing : parts ++ List.replicate blanks [] = []
    · rw [nothing]
      exact (List.append_eq_nil_iff.mp nothing).1.symm
    · have cut : pieces separator ([separator].intercalate (parts ++ List.replicate blanks [])) =
          parts ++ List.replicate blanks [] := by
        refine (pieces_eq_iff nothing).mpr ⟨fun part member => ?_, rfl⟩
        obtain own | blank := List.mem_append.mp member
        · exact apart part own
        · rw [(List.mem_replicate.mp blank).2]
          exact List.not_mem_nil
      rw [cut, dropTrailingEmpty_append_replicate last]

/-- What stands before the first mark of a text, the mark, and what stands behind it. -/
theorem eq_of_dropWhile_ne {mark c : Char} {text behind : List Char}
    (cut : text.dropWhile (· ≠ mark) = c :: behind) :
    text = text.takeWhile (· ≠ mark) ++ mark :: behind := by
  induction text with
  | nil => cases cut
  | cons first text inductionHypothesis =>
    by_cases same : first = mark
    · subst same
      simp only [ne_eq, not_true_eq_false, decide_false, Bool.false_eq_true, not_false_eq_true,
        List.dropWhile_cons_of_neg, List.cons.injEq] at cut
      simp [cut.2]
    · rw [List.dropWhile_cons, if_pos (by simpa using same)] at cut
      rw [List.takeWhile_cons, if_pos (by simpa using same), List.cons_append,
        ← inductionHypothesis cut]

end ParamSweep.Text
