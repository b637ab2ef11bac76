import Mathlib.Data.List.Infix
import ParamSweep.Domain
import ParamSweep.Request.Spelling

/-!
# Which texts are spelled from names and formula characters

The check marks lengths in a table that has an entry for every length up to that of the text.
Before it comes to a length, it has marked it exactly if the beginning of that length is joined from
pieces, since the last piece of such a beginning starts at a shorter one. What is marked from a
length on is the length of another beginning, so there always is an entry for it. At the end the
last entry says whether the whole text can be cut into pieces each of which is a declared name or a
single character of a number, an operator or a bracket. The pieces need not be unique: names may
overlap, and one may begin with another.

The table goes by bytes. A text is known by its bytes, so where these are joined from those of
pieces, the text is joined from the pieces.
-/

namespace ParamSweep.Request

/-- A piece that a formula may be spelled with. -/
def IsPiece (names : List (List Char)) (piece : List Char) : Prop :=
  piece ∈ names ∨
    ∃ c, piece = [c] ∧ (c.isDigit = true ∨ c ∈ ['.', '+', '-', '*', '/', '^', '(', ')'])

/-- A text that is joined from pieces. -/
def IsConcatenation (names : List (List Char)) (text : List Char) : Prop :=
  ∃ pieces : List (List Char), pieces.flatten = text ∧ ∀ piece ∈ pieces, IsPiece names piece

/-- The characters of formulas are the digits and some signs. -/
theorem isFormulaGlyph_iff (c : Char) :
    isFormulaGlyph c = true ↔
      c.isDigit = true ∨ c ∈ ['.', '+', '-', '*', '/', '^', '(', ')'] := by
  have glyphs : ".+-*/^()".toList = ['.', '+', '-', '*', '/', '^', '(', ')'] := rfl
  rw [isFormulaGlyph, glyphs, Bool.or_eq_true, List.contains_iff_mem]

/-! ### Texts as bytes -/

/-- The bytes of a text are those of its parts. -/
theorem bytesOf_append (left right : List Char) :
    bytesOf (left ++ right) = bytesOf left ++ bytesOf right := List.flatMap_append

/-- A text is known by its bytes. -/
theorem eq_of_bytesOf_eq {left right : List Char} (same : bytesOf left = bytesOf right) :
    left = right := by
  have encoded : left.utf8Encode = right.utf8Encode := congrArg List.toByteArray same
  have decoded := congrArg ByteArray.utf8Decode? encoded
  rw [List.utf8Decode?_utf8Encode, List.utf8Decode?_utf8Encode] at decoded
  exact List.toArray_inj (Option.some.inj decoded)

/-- The characters of formulas are single bytes. -/
theorem utf8Size_of_isFormulaGlyph {c : Char} (glyph : isFormulaGlyph c = true) :
    c.utf8Size = 1 := by
  rw [Char.utf8Size_eq_one_iff]
  obtain digit | listed := (isFormulaGlyph_iff c).mp glyph
  · have bounds : (decide (c.val ≥ '0'.val) && decide (c.val ≤ '9'.val)) = true := digit
    have last : '9'.val ≤ 127 := by decide
    simp only [Bool.and_eq_true, decide_eq_true_eq, UInt32.le_iff_toNat_le] at bounds last ⊢
    exact bounds.2.trans last
  · revert listed
    simp only [List.mem_cons, List.not_mem_nil, or_false]
    rintro (rfl | rfl | rfl | rfl | rfl | rfl | rfl | rfl) <;> decide

/-- A character of formulas is one byte, and is read back from it. -/
theorem bytesOf_glyph {c : Char} (glyph : isFormulaGlyph c = true) :
    bytesOf [c] = [c.val.toUInt8] ∧ Char.ofUInt8 c.val.toUInt8 = c := by
  have single := utf8Size_of_isFormulaGlyph glyph
  constructor
  · simp [bytesOf, String.utf8EncodeChar_eq_singleton single]
  · have small := UInt32.le_iff_toNat_le.mp (Char.utf8Size_eq_one_iff.mp single)
    have limit : (127 : UInt32).toNat = 127 := rfl
    have kept : c.val.toUInt8.toNat = c.val.toNat := by
      rw [UInt32.toNat_toUInt8]
      omega
    refine Char.ext (UInt32.toNat_inj.mp ?_)
    rw [← kept]
    rfl

/-! ### Beginnings that can be spelled -/

/-- A piece of a text of bytes. -/
def IsBytePiece (names : List (List UInt8)) (piece : List UInt8) : Prop :=
  piece ∈ names ∨ ∃ byte, piece = [byte] ∧ isFormulaGlyph (.ofUInt8 byte) = true

/-- A text of bytes that grows piece by piece from its front. -/
inductive Spellable (names : List (List UInt8)) : List UInt8 → Prop
  | nil : Spellable names []
  | append {before piece : List UInt8} (spelled : Spellable names before)
      (own : IsBytePiece names piece) (some : piece ≠ []) : Spellable names (before ++ piece)

/-- What the bytes of a text can be cut into are the bytes of pieces. -/
theorem Spellable.exists_pieces {names : List (List Char)} {bytes : List UInt8}
    (spelled : Spellable (names.map bytesOf) bytes) :
    ∃ pieces : List (List Char), bytes = bytesOf pieces.flatten ∧
      ∀ piece ∈ pieces, IsPiece names piece := by
  induction spelled with
  | nil => exact ⟨[], rfl, nofun⟩
  | @append before bytes spelled own some inductionHypothesis =>
    obtain ⟨pieces, rfl, all⟩ := inductionHypothesis
    have next : ∃ piece, IsPiece names piece ∧ bytesOf piece = bytes := by
      obtain member | ⟨byte, rfl, glyph⟩ := own
      · obtain ⟨name, declared, same⟩ := List.mem_map.mp member
        exact ⟨name, .inl declared, same⟩
      · obtain ⟨single, -⟩ := bytesOf_glyph glyph
        have same : (Char.ofUInt8 byte).val.toUInt8 = byte := UInt8.toUInt8_toUInt32 byte
        have isPiece : IsPiece names [.ofUInt8 byte] :=
          .inr ⟨_, rfl, (isFormulaGlyph_iff _).mp glyph⟩
        exact ⟨[.ofUInt8 byte], isPiece, by rw [single, same]⟩
    obtain ⟨piece, isPiece, rfl⟩ := next
    refine ⟨pieces ++ [piece], by simp [bytesOf_append], ?_⟩
    exact List.forall_mem_append.mpr ⟨all, List.forall_mem_singleton.mpr isPiece⟩

/-- Pieces can be added to a text one by one. -/
theorem Spellable.append_pieces {names pieces : List (List Char)} {before : List UInt8}
    (spelled : Spellable (names.map bytesOf) before)
    (all : ∀ piece ∈ pieces, IsPiece names piece) :
    Spellable (names.map bytesOf) (before ++ bytesOf pieces.flatten) := by
  induction pieces generalizing before with
  | nil => simpa [bytesOf] using spelled
  | cons piece others inductionHypothesis =>
    obtain ⟨own, rest⟩ := List.forall_mem_cons.mp all
    have bytes : IsBytePiece (names.map bytesOf) (bytesOf piece) := by
      obtain declared | ⟨c, rfl, allowed⟩ := own
      · exact .inl (List.mem_map_of_mem declared)
      · have glyph := (isFormulaGlyph_iff c).mpr allowed
        obtain ⟨single, same⟩ := bytesOf_glyph glyph
        exact .inr ⟨_, single, by rwa [same]⟩
    rw [List.flatten_cons, bytesOf_append, ← List.append_assoc]
    refine inductionHypothesis ?_ rest
    by_cases nothing : bytesOf piece = []
    · rwa [nothing, List.append_nil]
    · exact spelled.append bytes nothing

/-- A text is joined from pieces exactly if its bytes are. -/
theorem spellable_bytesOf {names : List (List Char)} {text : List Char} :
    Spellable (names.map bytesOf) (bytesOf text) ↔ IsConcatenation names text := by
  constructor
  · intro spelled
    obtain ⟨pieces, joined, all⟩ := spelled.exists_pieces
    exact ⟨pieces, (eq_of_bytesOf_eq joined).symm, all⟩
  · rintro ⟨pieces, rfl, all⟩
    exact Spellable.nil.append_pieces all

/-! ### The table -/

/-- A length to which a piece leads that starts before `bound`, or the least one. -/
def LeadsTo (names : List (List UInt8)) (text : List UInt8) (bound length : Nat) : Prop :=
  length = 0 ∨
    ∃ before piece, before.length < bound ∧ Spellable names before ∧ IsBytePiece names piece ∧
      before ++ piece <+: text ∧ (before ++ piece).length = length

variable {names : List (List UInt8)} {text : List UInt8}

/-- Pieces that start before a length say whether the beginning of that length is spelled. -/
theorem leadsTo_iff {bound length : Nat} (within : length ≤ bound) (inside : length ≤ text.length) :
    LeadsTo names text bound length ↔ Spellable names (text.take length) := by
  constructor
  · rintro (rfl | ⟨before, piece, -, spelled, own, begins, rfl⟩)
    · exact .nil
    · rw [← List.prefix_iff_eq_take.mp begins]
      by_cases nothing : piece = []
      · rwa [nothing, List.append_nil]
      · exact spelled.append own nothing
  · intro spelled
    have begins := List.take_prefix length text
    have counted := List.length_take_of_le inside
    generalize text.take length = beginning at spelled begins counted
    cases spelled with
    | nil => exact .inl counted.symm
    | append spelled own some =>
      refine .inr ⟨_, _, ?_, spelled, own, begins, counted⟩
      have longer := List.length_pos_of_ne_nil some
      rw [List.length_append] at counted
      omega

/-- What one more beginning adds: the lengths of the pieces that stand behind it. -/
theorem leadsTo_succ {before rest : List UInt8} {length : Nat} :
    LeadsTo names (before ++ rest) (before.length + 1) length ↔
      LeadsTo names (before ++ rest) before.length length ∨
        Spellable names before ∧ ∃ piece, IsBytePiece names piece ∧ piece <+: rest ∧
          before.length + piece.length = length := by
  constructor
  · rintro (rfl | ⟨beginning, piece, shorter, spelled, own, begins, rfl⟩)
    · exact .inl (.inl rfl)
    · obtain less | same := Nat.lt_succ_iff_lt_or_eq.mp shorter
      · exact .inl (.inr ⟨beginning, piece, less, spelled, own, begins, rfl⟩)
      · obtain ⟨behind, parts⟩ := begins
        rw [List.append_assoc] at parts
        obtain ⟨rfl, rfl⟩ := List.append_inj parts same
        exact .inr ⟨spelled, piece, own, ⟨behind, rfl⟩, List.length_append.symm⟩
  · rintro ((rfl | ⟨beginning, piece, shorter, rest⟩) | ⟨spelled, piece, own, begins, rfl⟩)
    · exact .inl rfl
    · exact .inr ⟨beginning, piece, Nat.lt_succ_of_lt shorter, rest⟩
    · exact .inr ⟨before, piece, Nat.lt_succ_self _, spelled, own,
        (List.prefix_append_right_inj before).mpr begins, List.length_append⟩

namespace Reach

/-- A table in which the lengths are marked that some pieces lead to. -/
structure Adds (reach next : Reach) (marked : Nat → Prop) : Prop where
  size_eq : next.size = reach.size
  known : ∀ length, next[length]? = some true ↔ reach[length]? = some true ∨ marked length

/-- A length within the table can be marked, and nothing else is marked with it. -/
theorem mark?_of_lt {reach : Reach} {length : Nat} (inside : length < reach.size) :
    ∃ next, reach.mark? length = some next ∧ reach.Adds next (· = length) := by
  refine ⟨reach.set length true, dif_pos inside, Array.size_set inside, fun other => ?_⟩
  rw [Array.getElem?_set]
  split
  next same => simp [same]
  next apart => simp [Ne.symm apart]

/-- A single character that stands next has an entry for the length to which it leads. -/
theorem followGlyph?_eq {reach : Reach} {length : Nat} {rest : List UInt8}
    (room : length + rest.length < reach.size) :
    ∃ next, reach.followGlyph? length rest = some next ∧
      reach.Adds next fun longer => ∃ byte, isFormulaGlyph (.ofUInt8 byte) = true ∧
        [byte] <+: rest ∧ length + 1 = longer := by
  cases rest with
  | nil => exact ⟨reach, rfl, rfl, by simp⟩
  | cons byte rest =>
    rw [List.length_cons] at room
    by_cases glyph : isFormulaGlyph (.ofUInt8 byte) = true
    · obtain ⟨next, done, size_eq, known⟩ := mark?_of_lt (by omega : length + 1 < reach.size)
      refine ⟨next, (if_pos glyph).trans done, size_eq, fun longer => ?_⟩
      rw [known]
      refine or_congr_right ⟨?_, ?_⟩
      · rintro rfl
        exact ⟨byte, glyph, List.prefix_append [byte] rest, rfl⟩
      · rintro ⟨-, -, -, rfl⟩
        rfl
    · refine ⟨reach, if_neg glyph, rfl, fun longer => (or_iff_left ?_).symm⟩
      rintro ⟨other, other_glyph, begins, -⟩
      obtain ⟨rfl, -⟩ := List.cons_prefix_cons.mp begins
      exact glyph other_glyph

/-- So has every name that stands next. -/
theorem foldlM_followName? (names : List (List UInt8)) {reach : Reach} {length : Nat}
    {rest : List UInt8} (room : length + rest.length < reach.size) :
    ∃ next, names.foldlM (followName? length rest) reach = some next ∧
      reach.Adds next fun longer =>
        ∃ name ∈ names, name <+: rest ∧ length + name.length = longer := by
  induction names generalizing reach with
  | nil => exact ⟨reach, rfl, rfl, by simp⟩
  | cons name others inductionHypothesis =>
    rw [List.foldlM_cons]
    by_cases begins : name <+: rest
    · have inside : length + name.length < reach.size := by
        have shorter := begins.length_le
        omega
      obtain ⟨marked, done, size_eq, known⟩ := mark?_of_lt inside
      obtain ⟨next, followed, size_eq', known'⟩ := inductionHypothesis (size_eq ▸ room)
      refine ⟨next, ?_, size_eq'.trans size_eq, fun longer => ?_⟩
      · rw [followName?, if_pos (List.isPrefixOf_iff_prefix.mpr begins), done]
        exact followed
      · simp [known', known, begins, or_assoc, eq_comm]
    · obtain ⟨next, followed, size_eq, known⟩ := inductionHypothesis room
      refine ⟨next, ?_, size_eq, fun longer => ?_⟩
      · rw [followName?, if_neg (mt List.isPrefixOf_iff_prefix.mp begins)]
        exact followed
      · simp [known, begins]

/-- From one reachable length, exactly those lengths are marked that a piece of the rest leads to.
-/
theorem extend?_eq (names : List (List UInt8)) {reach : Reach} {length : Nat}
    {rest : List UInt8} (room : length + rest.length < reach.size) :
    ∃ next, reach.extend? names length rest = some next ∧
      reach.Adds next fun longer => ∃ piece, IsBytePiece names piece ∧ piece <+: rest ∧
        length + piece.length = longer := by
  obtain ⟨glyphs, done, size_eq, known⟩ := followGlyph?_eq room
  obtain ⟨next, followed, size_eq', known'⟩ := foldlM_followName? names (size_eq ▸ room)
  refine ⟨next, ?_, size_eq'.trans size_eq, fun longer => ?_⟩
  · rw [extend?, done]
    exact followed
  · rw [known', known, or_assoc]
    refine or_congr_right ⟨?_, ?_⟩
    · rintro (⟨byte, glyph, begins, reached⟩ | ⟨name, declared, begins, reached⟩)
      · exact ⟨[byte], .inr ⟨byte, rfl, glyph⟩, begins, reached⟩
      · exact ⟨name, .inl declared, begins, reached⟩
    · rintro ⟨piece, declared | ⟨byte, rfl, glyph⟩, begins, reached⟩
      · exact .inr ⟨piece, declared, begins, reached⟩
      · exact .inl ⟨byte, glyph, begins, reached⟩

/-- A table that has an entry for every length and marks those to which a piece leads that starts
before `bound`. -/
structure Knows (reach : Reach) (names : List (List UInt8)) (text : List UInt8) (bound : Nat) :
    Prop where
  size_eq : reach.size = text.length + 1
  known : ∀ length, reach[length]? = some true ↔ LeadsTo names text bound length

/-- At the start only the empty text has been reached. -/
theorem knows_start (names : List (List UInt8)) (text : List UInt8) :
    (start text.length).Knows names text 0 where
  size_eq := by simp [start, Nat.add_comm]
  known length := by
    have nothing : LeadsTo names text 0 length ↔ length = 0 := by simp [LeadsTo]
    rw [nothing, start]
    cases length with
    | zero =>
      rw [Array.getElem?_append_left (by decide)]
      exact iff_of_true rfl rfl
    | succ length => simp [Array.getElem?_append, Array.getElem?_replicate]

/-- Looking one length up, the table learns to which lengths the pieces behind it lead.

Proof: the length is marked exactly if the beginning of that length is spelled; then the pieces
that stand behind it are added, and if not, it adds none. -/
theorem Knows.visit? {reach : Reach} {before rest : List UInt8}
    (knows : reach.Knows names (before ++ rest) before.length) :
    ∃ next, reach.visit? names before.length rest = some next ∧
      next.Knows names (before ++ rest) (before.length + 1) := by
  obtain ⟨size_eq, known⟩ := knows
  rw [List.length_append] at size_eq
  have inside : before.length < reach.size := by omega
  have spelled : reach[before.length] = true ↔ Spellable names before := by
    have looked := known before.length
    rwa [leadsTo_iff le_rfl (by simp), List.take_left, Array.getElem?_eq_getElem inside,
      Option.some.injEq] at looked
  rw [Reach.visit?, Array.getElem?_eq_getElem inside, Option.bind_eq_bind, Option.bind_some]
  by_cases marked : reach[before.length] = true
  · obtain ⟨next, done, size_eq', known'⟩ :=
      extend?_eq names (by omega : before.length + rest.length < reach.size)
    refine ⟨next, (if_pos marked).trans done, ?_, fun length => ?_⟩
    · rw [size_eq', size_eq, List.length_append]
    · rw [known', known, leadsTo_succ, and_iff_right (spelled.mp marked)]
  · refine ⟨reach, if_neg marked, by rw [size_eq, List.length_append], fun length => ?_⟩
    rw [known, leadsTo_succ, or_iff_left fun added => marked (spelled.mpr added.1)]

/-- So at the end it knows to which lengths all pieces lead. -/
theorem Knows.pass? {reach : Reach} {before rest : List UInt8}
    (knows : reach.Knows names (before ++ rest) before.length) :
    ∃ last, Reach.pass? names before.length rest reach = some last ∧
      last.Knows names (before ++ rest) (before ++ rest).length := by
  induction rest generalizing before reach with
  | nil => exact ⟨reach, rfl, by simpa using knows⟩
  | cons byte rest inductionHypothesis =>
    obtain ⟨next, visited, further⟩ := knows.visit?
    have onwards : before ++ byte :: rest = (before ++ [byte]) ++ rest := by simp
    have longer : (before ++ [byte]).length = before.length + 1 := by simp
    rw [onwards, ← longer] at further
    obtain ⟨last, passed, known⟩ := inductionHypothesis further
    refine ⟨last, ?_, onwards ▸ known⟩
    rw [Reach.pass?, visited, Option.bind_eq_bind, Option.bind_some, ← longer]
    exact passed

end Reach

/-- The table of a text has an entry for every length, and nothing is marked without one; an entry
says whether the beginning of its length is spelled. -/
theorem exists_reach (names : List (List Char)) (text : List Char) :
    ∃ reach, Reach.ofText? names text = some reach ∧ reach.size = (bytesOf text).length + 1 ∧
      ∀ length ≤ (bytesOf text).length, reach[length]? = some true ↔
        Spellable (names.map bytesOf) ((bytesOf text).take length) := by
  have started : (Reach.start (bytesOf text).length).Knows (names.map bytesOf)
      ([] ++ bytesOf text) ([] : List UInt8).length := Reach.knows_start _ _
  obtain ⟨reach, passed, size_eq, known⟩ := started.pass?
  refine ⟨reach, passed, size_eq, fun length inside => ?_⟩
  rw [known]
  exact leadsTo_iff inside inside

/-- A text passes the check exactly if it is joined from pieces. -/
theorem isSpelled_iff {names : List (List Char)} (text : List Char) :
    isSpelled names text = true ↔ IsConcatenation names text := by
  obtain ⟨reach, found, size_eq, known⟩ := exists_reach names text
  have last : isSpelled names text = true ↔ reach[(bytesOf text).length]? = some true := by
    rw [isSpelled, found, Option.bind_some, Array.back?, size_eq, Nat.add_sub_cancel]
    cases reach[(bytesOf text).length]? <;> simp
  rw [last, known _ le_rfl, List.take_length, spellable_bytesOf]

/-- Against the names of domains the check is exact, however these overlap or begin with one
another, and it marks no length that the table has no entry for. -/
theorem isSpelled_names_iff (domains : List Domain) (text : List Char) :
    (isSpelled (domains.map (·.name.toList)) text = true ↔
      ∃ pieces : List (List Char), pieces.flatten = text ∧
        ∀ piece ∈ pieces, (∃ domain ∈ domains, domain.name.toList = piece) ∨
          ∃ c, piece = [c] ∧ (c.isDigit = true ∨ c ∈ ['.', '+', '-', '*', '/', '^', '(', ')'])) ∧
      ∃ reach, Reach.ofText? (domains.map (·.name.toList)) text = some reach ∧
        reach.size = (bytesOf text).length + 1 := by
  have declared (piece : List Char) :
      piece ∈ domains.map (·.name.toList) ↔ ∃ domain ∈ domains, domain.name.toList = piece :=
    List.mem_map
  obtain ⟨reach, found, size_eq, -⟩ := exists_reach (domains.map (·.name.toList)) text
  refine ⟨?_, reach, found, size_eq⟩
  simp only [isSpelled_iff, IsConcatenation, IsPiece, declared]

/-- A name that begins another does not hide it, and one that overlaps with the next piece leaves
it to be read. -/
example : isSpelled ["a".toList, "ab".toList, "b1".toList] "aab1".toList = true ∧
    isSpelled ["ab".toList, "b1".toList] "ab1b".toList = false := by decide +kernel

end ParamSweep.Request
