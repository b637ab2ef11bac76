import Mathlib.Data.List.Perm.Basic
import ParamSweep.Settings.Basic

/-!
# What the members of an object say

Each setting is looked up by its name among all members of an object. So neither the order of the
members nor those of other names are of any consequence; a name that is given twice is refused, and
one that is not given leaves its setting alone. An array says what the object says that has the
names of the settings beside its items.
-/

namespace ParamSweep.Settings

variable {members others : List (Option String × Document)} {settings : Settings} {name : String}

/-! ### Looking up a name -/

/-- The values of a name among some members are looked for one member after the other. -/
theorem valuesOf_cons (key : Option String) (value : Document)
    (members : List (Option String × Document)) (name : String) :
    valuesOf ((key, value) :: members) name =
      if key = some name then value :: valuesOf members name else valuesOf members name := by
  by_cases same : key = some name <;> simp [valuesOf, same]

/-- A name that no member has has no values. -/
theorem valuesOf_eq_nil (missing : ∀ member ∈ members, member.1 ≠ some name) :
    valuesOf members name = [] := by
  rw [valuesOf, List.map_eq_nil_iff, List.filter_eq_nil_iff]
  exact fun member inside => by simpa using missing member inside

/-- The values of a name are the same in any order of the members. -/
theorem valuesOf_perm (same : members.Perm others) (name : String) :
    (valuesOf members name).Perm (valuesOf others name) :=
  (same.filter _).map _

/-- A name is looked up among members in any order. -/
theorem withMember?_perm (same : members.Perm others) (settings : Settings) (name : String) :
    withMember? members settings name = withMember? others settings name := by
  have values := valuesOf_perm same name
  unfold withMember?
  generalize valuesOf members name = found at values
  generalize valuesOf others name = otherFound at values
  match found, otherFound with
  | [], _ => rw [List.nil_perm.mp values]
  | [value], _ => rw [List.singleton_perm.mp values]
  | _ :: _ :: _, [] => cases values.length_eq
  | _ :: _ :: _, [_] => cases values.length_eq
  | _ :: _ :: _, _ :: _ :: _ => rfl

/-- A member of another name is not looked at. -/
theorem withMember?_cons {key : Option String} (other : key ≠ some name) (value : Document) :
    withMember? ((key, value) :: members) settings name = withMember? members settings name := by
  rw [withMember?, withMember?, valuesOf_cons, if_neg other]

/-- A name that no member has leaves its setting alone. -/
theorem withMember?_missing (missing : ∀ member ∈ members, member.1 ≠ some name)
    (settings : Settings) : withMember? members settings name = some settings := by
  rw [withMember?, valuesOf_eq_nil missing]

/-- A name that one member has takes its setting from it. -/
theorem withMember?_first (missing : ∀ member ∈ members, member.1 ≠ some name) (value : Document)
    (settings : Settings) :
    withMember? ((some name, value) :: members) settings name =
      settings.withSetting? name value := by
  rw [withMember?, valuesOf_cons, if_pos rfl, valuesOf_eq_nil missing]

/-- A name that is given twice is refused. -/
theorem withMember?_repeated (twice : 1 < (valuesOf members name).length) (settings : Settings) :
    withMember? members settings name = none := by
  unfold withMember?
  split
  next nothing =>
    rw [nothing] at twice
    cases twice
  next value single =>
    rw [single] at twice
    exact absurd twice (Nat.lt_irrefl 1)
  next => rfl

/-! ### Looking up all names -/

/-- Members that say the same of each name say the same of all. -/
theorem foldlM_withMember?_congr (wanted : List String)
    (same : ∀ name ∈ wanted, ∀ settings,
      withMember? members settings name = withMember? others settings name)
    (settings : Settings) :
    wanted.foldlM (withMember? members) settings = wanted.foldlM (withMember? others) settings := by
  induction wanted generalizing settings with
  | nil => rfl
  | cons name wanted inductionHypothesis =>
    obtain ⟨first, rest⟩ := List.forall_mem_cons.mp same
    rw [List.foldlM_cons, List.foldlM_cons, first]
    exact congrArg (Option.bind _) (funext (inductionHypothesis rest))

/-- One name that is refused is enough. -/
theorem foldlM_withMember?_eq_none {wanted : List String} (known : name ∈ wanted)
    (refused : ∀ settings, withMember? members settings name = none) (settings : Settings) :
    wanted.foldlM (withMember? members) settings = none := by
  induction wanted generalizing settings with
  | nil => cases known
  | cons first wanted inductionHypothesis =>
    rw [List.foldlM_cons]
    obtain rfl | later := List.mem_cons.mp known
    · rw [refused]
      rfl
    · exact Option.bind_eq_none_iff.mpr fun next _ => inductionHypothesis later next

/-- The order of the members does not matter. -/
theorem withDocument?_perm (same : members.Perm others) (settings : Settings) :
    settings.withDocument? (.object members) = settings.withDocument? (.object others) := by
  have each := foldlM_withMember?_congr names
    (fun name _ settings => withMember?_perm same settings name) settings
  rw [withDocument?, withDocument?, each, same.all_eq]

/-- Members of other names do not matter. -/
theorem withDocument?_cons_foreign (foreign : name ∉ names) (value : Document)
    (settings : Settings) :
    settings.withDocument? (.object ((some name, value) :: members)) =
      settings.withDocument? (.object members) := by
  have each : names.foldlM (withMember? ((some name, value) :: members)) settings =
      names.foldlM (withMember? members) settings := by
    refine foldlM_withMember?_congr names (fun wanted known settings => ?_) settings
    refine withMember?_cons (fun same => ?_) value
    exact foreign ((Option.some.inj same).symm ▸ known)
  rw [withDocument?, withDocument?, each]
  rfl

/-- A setting that is given twice is refused, with whatever values. -/
theorem withDocument?_repeated (known : name ∈ names)
    (twice : 1 < (valuesOf members name).length) (settings : Settings) :
    settings.withDocument? (.object members) = none := by
  rw [withDocument?, foldlM_withMember?_eq_none known (withMember?_repeated twice), ite_self]

/-! ### Arrays -/

/-- The members that an array of items stands for. -/
def membersOf (names : List String) (items : List Document) : List (Option String × Document) :=
  (names.zip items).map fun (name, item) => (some name, item)

/-- A list of no items has no members. -/
theorem membersOf_nil (wanted : List String) : membersOf wanted [] = [] := by
  rw [membersOf, List.zip_nil_right, List.map_nil]

/-- The items have the names that stand beside them and no others. -/
theorem ne_of_mem_membersOf {wanted : List String} (apart : name ∉ wanted) (items : List Document) :
    ∀ member ∈ membersOf wanted items, member.1 ≠ some name := by
  refine List.forall_mem_map.mpr fun pair inside same => apart ?_
  exact Option.some.inj same ▸ (List.of_mem_zip inside).1

/-- Names that are all different are looked up one after the other. -/
theorem foldlM_membersOf {wanted : List String} (different : wanted.Nodup) (items : List Document)
    (settings : Settings) :
    wanted.foldlM (withMember? (membersOf wanted items)) settings =
      (wanted.zip items).foldlM (fun settings (name, item) => settings.withSetting? name item)
        settings := by
  induction wanted generalizing items settings with
  | nil => rfl
  | cons name wanted inductionHypothesis =>
    obtain ⟨apart, different⟩ := List.nodup_cons.mp different
    cases items with
    | nil =>
      have rest := inductionHypothesis different [] settings
      rw [membersOf_nil, List.zip_nil_right] at rest
      rw [membersOf_nil, List.foldlM_cons, withMember?_missing (fun _ => List.not_mem_nil.elim)]
      exact rest
    | cons item items =>
      have first := withMember?_first (ne_of_mem_membersOf apart items) item settings
      have behind (settings : Settings) :
          wanted.foldlM (withMember? (membersOf (name :: wanted) (item :: items))) settings =
            wanted.foldlM (withMember? (membersOf wanted items)) settings := by
        refine foldlM_withMember?_congr wanted (fun other known settings => ?_) settings
        refine withMember?_cons (fun same => ?_) item
        exact apart ((Option.some.inj same).symm ▸ known)
      rw [List.zip_cons_cons, List.foldlM_cons, List.foldlM_cons]
      refine (congrArg (Option.bind · _) first).trans (congrArg (Option.bind _) (funext ?_))
      exact fun next => (behind next).trans (inductionHypothesis different items next)

/-- An array says what the object says that has the names of the settings beside its items. -/
theorem withDocument?_array {items : List Document} (few : items.length ≤ names.length)
    (settings : Settings) :
    settings.withDocument? (.array items) =
      settings.withDocument? (.object (membersOf names items)) := by
  have keys : (membersOf names items).all (·.1.isSome) = true := by simp [membersOf]
  rw [withDocument?, withDocument?, if_pos few, if_pos keys, foldlM_membersOf (by decide)]

end ParamSweep.Settings
