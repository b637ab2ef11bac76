import ParamSweep.Domain
import ParamSweep.Proofs.Number.Literal
import ParamSweep.Proofs.Number.Value
import ParamSweep.Proofs.Text.Fields

/-!
# What a declaration declares

A declaration is a name and three signed literals between colons. One that has another form is
refused for its form, whatever else is wrong with it; one that has this form is refused for its
step, for the order of its ends or for the number of its points, in this order.
-/

namespace ParamSweep

/-- The names of variables: a small letter, then small letters and digits. -/
def Formula.IsName (text : List Char) : Prop :=
  ∃ first rest, text = first :: rest ∧ first.isLower = true ∧
    ∀ c ∈ rest, c.isLower = true ∨ c.isDigit = true

/-- A signed literal, and the float that it is read as. -/
structure Number.Literal.ReadsAs (text : List Char) (value : Float) : Prop where
  form : ∃ exact, DenotesSigned text exact
  read : readSigned? text = some value

open Number.Literal (ReadsAs)

/-- The only characters of a literal are digits, a point and a sign. -/
theorem Number.Literal.ReadsAs.glyphs {text : List Char} {value : Float}
    (reads : ReadsAs text value) : ∀ c ∈ text, c.isDigit = true ∨ c = '.' ∨ c = '-' := by
  obtain ⟨exact, denotes | denotes⟩ := reads.form
  · exact fun c member => (denotes.isDigit_or_point c member).imp_right .inl
  · refine List.forall_mem_cons.mpr ⟨.inr (.inr rfl), fun c member => ?_⟩
    exact (denotes.isDigit_or_point c member).imp_right .inl

/-- No number holds a colon. -/
theorem Number.Literal.ReadsAs.colon {text : List Char} {value : Float}
    (reads : ReadsAs text value) : ':' ∉ text := fun member =>
  absurd (reads.glyphs ':' member) (by decide)

/-- The only characters of a name are small letters and digits. -/
theorem Formula.IsName.glyphs {name : List Char} (isName : Formula.IsName name) :
    ∀ c ∈ name, c.isLower = true ∨ c.isDigit = true := by
  obtain ⟨first, rest, rfl, letter, others⟩ := isName
  exact List.forall_mem_cons.mpr ⟨.inl letter, others⟩

/-- No name does. -/
theorem Formula.IsName.colon {name : List Char} (isName : Formula.IsName name) : ':' ∉ name :=
  fun member => absurd (isName.glyphs ':' member) (by decide)

namespace Domain

/-- A declaration in its form, with what its parts are read as. -/
structure Spells (text name : List Char) (lower step upper : Float) : Prop where
  parts : ∃ lowerText stepText upperText,
    text = name ++ ':' :: (lowerText ++ ':' :: (stepText ++ ':' :: upperText)) ∧
      ReadsAs lowerText lower ∧ ReadsAs stepText step ∧ ReadsAs upperText upper
  isName : Formula.IsName name

/-- What comes of a declaration. -/
inductive Declares (text : List Char) : Except Fault Domain → Prop
  | malformed (unlike : ∀ name lower step upper, ¬ Spells text name lower step upper) :
      Declares text (.error (.formula .badVariable))
  | badStep {name : List Char} {lower step upper : Float}
      (spells : Spells text name lower step upper) (flat : step ≤ 0) :
      Declares text (.error .badStep)
  | badRange {name : List Char} {lower step upper : Float}
      (spells : Spells text name lower step upper) (steep : ¬ step ≤ 0)
      (reversed : upper < lower) : Declares text (.error .badRange)
  | tooLarge {name : List Char} {lower step upper : Float}
      (spells : Spells text name lower step upper) (steep : ¬ step ≤ 0)
      (ordered : ¬ upper < lower)
      (large : ∀ steps, Number.value? ((upper - lower) / step) = some steps →
        2 ^ 64 ≤ ⌈steps⌉₊ + 1) : Declares text (.error (.argument .spaceTooLarge))
  | domain {name : List Char} {lower step upper : Float} {steps : ℚ}
      (spells : Spells text name lower step upper) (steep : ¬ step ≤ 0)
      (ordered : ¬ upper < lower)
      (finite : Number.value? ((upper - lower) / step) = some steps)
      (fits : ⌈steps⌉₊ + 1 < 2 ^ 64) :
      Declares text
        (.ok { name := String.ofList name, lower, step, upper, size := ⌈steps⌉₊ + 1 })

/-! ### The form of a declaration -/

/-- The only characters of a declaration are those of names and literals, and colons. -/
theorem Spells.glyphs {text name : List Char} {lower step upper : Float}
    (spells : Spells text name lower step upper) :
    ∀ c ∈ text, c.isLower = true ∨ c.isDigit = true ∨ c ∈ ['.', '-', ':'] := by
  obtain ⟨lowerText, stepText, upperText, rfl, readsLower, readsStep, readsUpper⟩ := spells.parts
  have number {text : List Char} {value : Float} (reads : ReadsAs text value) :
      ∀ c ∈ text, c.isLower = true ∨ c.isDigit = true ∨ c ∈ ['.', '-', ':'] := by
    intro c member
    obtain digit | rfl | rfl := reads.glyphs c member
    · exact .inr (.inl digit)
    · exact .inr (.inr (by decide))
    · exact .inr (.inr (by decide))
  have colon : ':'.isLower = true ∨ ':'.isDigit = true ∨ ':' ∈ ['.', '-', ':'] := by decide
  simp only [List.forall_mem_append, List.forall_mem_cons]
  exact ⟨fun c member => (spells.isName.glyphs c member).imp_right .inl, colon,
    number readsLower, colon, number readsStep, colon, number readsUpper⟩

/-- A field of a declaration is read as a number if it is one. -/
theorem readNumber_eq_ok {text : List Char} {value : Float} :
    readNumber text = .ok value ↔ ReadsAs text value := by
  unfold readNumber
  constructor
  · intro read
    split at read
    next found =>
      obtain rfl := Except.ok.inj read
      refine ⟨(Number.Literal.isSome_readSigned? text).mp ?_, found⟩
      rw [found]
      rfl
    next => cases read
  · rintro ⟨-, read⟩
    rw [read]

/-- Otherwise the declaration is refused as that of a bad variable. -/
theorem readNumber_eq_error {text : List Char} {fault : Fault}
    (failed : readNumber text = .error fault) : fault = .formula .badVariable := by
  unfold readNumber at failed
  split at failed
  next => cases failed
  next => exact (Except.error.inj failed).symm

/-- A declaration in its form has four pieces. -/
theorem Spells.read {text name : List Char} {lower step upper : Float}
    (spells : Spells text name lower step upper) :
    Domain.read text = make (String.ofList name) lower step upper := by
  obtain ⟨lowerText, stepText, upperText, rfl, readsLower, readsStep, readsUpper⟩ := spells.parts
  have cut : Text.pieces ':' (name ++ ':' :: (lowerText ++ ':' :: (stepText ++ ':' :: upperText))) =
      [name, lowerText, stepText, upperText] := by
    refine (Text.pieces_eq_iff (List.cons_ne_nil _ _)).mpr ⟨?_, by simp [List.intercalate]⟩
    simp only [List.forall_mem_cons, List.not_mem_nil, false_imp_iff, implies_true, and_true]
    exact ⟨spells.isName.colon, readsLower.colon, readsStep.colon, readsUpper.colon⟩
  have named : Formula.isName name = true := (Formula.isName_iff name).mpr spells.isName
  simp only [Domain.read, cut, named, if_true, readNumber_eq_ok.mpr readsLower,
    readNumber_eq_ok.mpr readsStep, readNumber_eq_ok.mpr readsUpper]
  rfl

/-- A declaration in another form is refused for its form. -/
theorem read_of_unlike {text : List Char}
    (unlike : ∀ name lower step upper, ¬ Spells text name lower step upper) :
    read text = .error (.formula .badVariable) := by
  unfold read
  split
  next name lowerText stepText upperText cut =>
    split
    next named =>
      cases readLower : readNumber lowerText with
      | error fault => exact congrArg _ (readNumber_eq_error readLower)
      | ok lower =>
        cases readStep : readNumber stepText with
        | error fault => exact congrArg _ (readNumber_eq_error readStep)
        | ok step =>
          cases readUpper : readNumber upperText with
          | error fault => exact congrArg _ (readNumber_eq_error readUpper)
          | ok upper =>
            refine absurd ⟨⟨lowerText, stepText, upperText, ?_, readNumber_eq_ok.mp readLower,
              readNumber_eq_ok.mp readStep, readNumber_eq_ok.mp readUpper⟩,
              (Formula.isName_iff name).mp named⟩ (unlike name lower step upper)
            have joined := ((Text.pieces_eq_iff (List.cons_ne_nil _ _)).mp cut).2
            simpa [List.intercalate] using joined
    next => rfl
  next => rfl

/-! ### The range of a declaration -/

/-- How many steps there are, where a count can hold one more. -/
theorem steps?_eq_some {lower step upper : Float} {count : Nat} :
    steps? lower step upper = some count ↔
      ∃ steps, Number.value? ((upper - lower) / step) = some steps ∧ ⌈steps⌉₊ = count ∧
        count + 1 < 2 ^ 64 := by
  have limit : countLimit = 2 ^ 64 := rfl
  rw [steps?, Number.ceiling?_eq, Option.filter_eq_some_iff, Option.map_eq_some_iff, limit]
  simp only [decide_eq_true_eq]
  constructor
  · rintro ⟨⟨steps, finite, same⟩, fits⟩
    exact ⟨steps, finite, same, fits⟩
  · rintro ⟨steps, finite, same, fits⟩
    exact ⟨⟨steps, finite, same⟩, fits⟩

/-- What comes of a declaration in its form. -/
theorem Spells.declares {text name : List Char} {lower step upper : Float}
    (spells : Spells text name lower step upper) :
    Declares text (make (String.ofList name) lower step upper) := by
  unfold make
  split
  next flat => exact .badStep spells flat
  next steep =>
    split
    next reversed => exact .badRange spells steep reversed
    next ordered =>
      split
      next count found =>
        obtain ⟨steps, finite, rfl, fits⟩ := steps?_eq_some.mp found
        exact .domain spells steep ordered finite fits
      next refused =>
        refine .tooLarge spells steep ordered fun steps finite => ?_
        by_contra fits
        have found := steps?_eq_some.mpr ⟨steps, finite, rfl, Nat.lt_of_not_le fits⟩
        rw [refused] at found
        cases found

/-- Reading a declaration makes the checks in their order, and of each declaration comes one
thing. -/
theorem read_iff_declares {text : List Char} {result : Except Fault Domain} :
    read text = result ↔ Declares text result := by
  constructor
  · rintro rfl
    by_cases form : ∃ name lower step upper, Spells text name lower step upper
    · obtain ⟨name, lower, step, upper, spells⟩ := form
      exact spells.read ▸ spells.declares
    · simp only [not_exists] at form
      exact read_of_unlike form ▸ .malformed form
  · intro declares
    cases declares with
    | malformed unlike => exact read_of_unlike unlike
    | badStep spells flat => rw [spells.read, make, if_pos flat]
    | badRange spells steep reversed => rw [spells.read, make, if_neg steep, if_pos reversed]
    | @tooLarge name lower step upper spells steep ordered large =>
      have refused : steps? lower step upper = none := by
        refine Option.eq_none_iff_forall_ne_some.mpr fun count found => ?_
        obtain ⟨steps, finite, rfl, fits⟩ := steps?_eq_some.mp found
        exact Nat.not_le_of_lt fits (large steps finite)
      rw [spells.read, make, if_neg steep, if_neg ordered, refused]
    | domain spells steep ordered finite fits =>
      have found := steps?_eq_some.mpr ⟨_, finite, rfl, fits⟩
      rw [spells.read, make, if_neg steep, if_neg ordered, found]

/-- A declaration that is accepted spells what its domain is made of. -/
theorem spells_of_read {declaration : List Char} {domain : Domain}
    (accepted : Domain.read declaration = .ok domain) :
    Spells declaration domain.name.toList domain.lower domain.step domain.upper := by
  cases read_iff_declares.mp accepted with
  | domain spells steep ordered finite fits =>
    rw [String.toList_ofList]
    exact spells

end Domain

end ParamSweep
