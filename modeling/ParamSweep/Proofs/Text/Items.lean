import Mathlib.Data.List.Forall2

/-!
# Lists that are read one by one

Whatever reads a list reads its items from left to right. All of them must be read for the list to
be, and then there is one value for each, in their order. A reader that tells why it fails tells it
of the first item that it cannot read.
-/

namespace ParamSweep

section

variable {α β : Type} {read : α → Option β} {items : List α}

/-- A list is read if each of its items is. -/
theorem mapM_eq_some {values : List β} :
    items.mapM read = some values ↔
      List.Forall₂ (fun item value => read item = some value) items values := by
  induction items generalizing values with
  | nil => simp [eq_comm]
  | cons item items inductionHypothesis =>
    simp only [List.mapM_cons, bind, Option.bind_eq_some_iff, pure, Option.some.injEq,
      List.forall₂_cons_left_iff, inductionHypothesis]
    constructor
    · rintro ⟨value, found, others, behind, rfl⟩
      exact ⟨value, others, found, behind, rfl⟩
    · rintro ⟨value, others, found, behind, rfl⟩
      exact ⟨value, found, others, behind, rfl⟩

/-- What holds of all that is read from one item holds of all values. -/
theorem forall_mem_of_mapM_eq_some {p : β → Prop}
    (good : ∀ item value, read item = some value → p value) {values : List β}
    (result : items.mapM read = some values) : ∀ value ∈ values, p value := by
  have each := mapM_eq_some.mp result
  induction each with
  | nil => exact nofun
  | cons found _ inductionHypothesis =>
    exact List.forall_mem_cons.mpr
      ⟨good _ _ found, inductionHypothesis (mapM_eq_some.mpr ‹_›)⟩

/-- Where no value is read there is no item. -/
theorem mapM_eq_some_nil (result : items.mapM read = some []) : items = [] :=
  List.forall₂_nil_right_iff.mp (mapM_eq_some.mp result)

/-- The first value is that of the first item. -/
theorem mapM_eq_some_cons {first : β} {rest : List β}
    (result : items.mapM read = some (first :: rest)) :
    ∃ item others, items = item :: others ∧ read item = some first ∧
      others.mapM read = some rest := by
  obtain ⟨item, others, found, behind, rfl⟩ :=
    List.forall₂_cons_right_iff.mp (mapM_eq_some.mp result)
  exact ⟨item, others, rfl, found, mapM_eq_some.mpr behind⟩

/-- Values that stand before others are those of the items that stand before the others'. -/
theorem mapM_eq_some_append {left right : List β}
    (result : items.mapM read = some (left ++ right)) :
    ∃ before behind, items = before ++ behind ∧ before.mapM read = some left ∧
      behind.mapM read = some right := by
  have each := mapM_eq_some.mp result
  exact ⟨items.take left.length, items.drop left.length, (List.take_append_drop _ _).symm,
    mapM_eq_some.mpr (List.forall₂_take_append _ _ _ each),
    mapM_eq_some.mpr (List.forall₂_drop_append _ _ _ each)⟩

end

section

variable {α β ε : Type} {read : α → Except ε β} {items : List α}

/-- The first item is read before the others, and it is the first to fail. -/
theorem mapM_cons_eq (item : α) :
    (item :: items).mapM read =
      match read item with
      | .error fault => .error fault
      | .ok value => (items.mapM read).map (value :: ·) := by
  rw [List.mapM_cons]
  cases read item with
  | error fault => rfl
  | ok value => cases items.mapM read <;> rfl

/-- A list is read if each of its items is. -/
theorem mapM_eq_ok {values : List β} :
    items.mapM read = .ok values ↔
      List.Forall₂ (fun item value => read item = .ok value) items values := by
  induction items generalizing values with
  | nil =>
    rw [List.forall₂_nil_left_iff]
    exact ⟨fun result => (Except.ok.inj result).symm, fun none => none ▸ rfl⟩
  | cons item items inductionHypothesis =>
    rw [mapM_cons_eq, List.forall₂_cons_left_iff]
    cases read item with
    | error fault => exact iff_of_false nofun fun ⟨_, _, found, _⟩ => nomatch found
    | ok value =>
      constructor
      · intro result
        cases rest : items.mapM read with
        | error fault =>
          rw [rest] at result
          cases result
        | ok others =>
          rw [rest] at result
          exact ⟨value, others, rfl, inductionHypothesis.mp rest, (Except.ok.inj result).symm⟩
      · rintro ⟨_, others, found, behind, rfl⟩
        cases found
        rw [inductionHypothesis.mpr behind]
        rfl

/-- A list is not read because of its first item that is not. -/
theorem mapM_eq_error {fault : ε} :
    items.mapM read = .error fault ↔
      ∃ before bad behind, items = before ++ bad :: behind ∧
        (∀ item ∈ before, ∃ value, read item = .ok value) ∧ read bad = .error fault := by
  induction items with
  | nil => exact iff_of_false nofun fun ⟨before, _, _, parts, _⟩ => by cases before <;> cases parts
  | cons item items inductionHypothesis =>
    rw [mapM_cons_eq]
    constructor
    · intro result
      cases first : read item with
      | error other =>
        rw [first] at result
        cases result
        exact ⟨[], item, items, rfl, nofun, first⟩
      | ok value =>
        cases rest : items.mapM read with
        | error other =>
          rw [first, rest] at result
          cases result
          obtain ⟨before, bad, behind, rfl, good, refused⟩ := inductionHypothesis.mp rest
          exact ⟨item :: before, bad, behind, rfl,
            List.forall_mem_cons.mpr ⟨⟨value, first⟩, good⟩, refused⟩
        | ok others =>
          rw [first, rest] at result
          cases result
    · rintro ⟨before, bad, behind, parts, good, refused⟩
      cases before with
      | nil =>
        obtain ⟨rfl, rfl⟩ := List.cons.inj parts
        rw [refused]
      | cons head before =>
        obtain ⟨rfl, rfl⟩ := List.cons.inj parts
        obtain ⟨⟨value, first⟩, others⟩ := List.forall_mem_cons.mp good
        rw [first, inductionHypothesis.mpr ⟨before, bad, behind, rfl, others, refused⟩]
        rfl

end

end ParamSweep
