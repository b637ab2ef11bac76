import Mathlib.Data.Multiset.Bind
import Mathlib.Data.Multiset.Range
import ParamSweep.Proofs.Sweep.Denotation

/-!
# Domains in another order

The order in which domains are declared settles the radix in which the points of a grid are
numbered, and so the order in which a walk visits them. It does not settle which points there are:
a grid has a point for every choice of one index for each domain, and with distinct names a point
gives every name the same value whatever place its domain has. So the valuations of the points are
the same in any order of the domains, as a multiset.

Nor does the order settle whether there is a space at all. The number of points of a grid is a
product, and since no domain is empty its partial products pass the limit of counts exactly if it
does itself; and whether the domains of a list agree in size has nothing to do with their order.
-/

namespace ParamSweep

namespace Formula.Valuation

/-- A valuation with one more name, unless the name has a value already. -/
def extend (name : String) (value : Value) (valuation : Valuation) : Valuation := fun other =>
  (valuation other).or (if name == other then some value else none)

/-- The first of some pairs comes behind all others. -/
theorem ofPairs_cons (pair : String × Value) (pairs : List (String × Value)) :
    ofPairs (pair :: pairs) = extend pair.1 pair.2 (ofPairs pairs) := by
  funext name
  simp only [ofPairs, extend, List.reverse_cons, List.find?_append]
  cases pairs.reverse.find? (·.1 == name) with
  | some found => rfl
  | none => by_cases own : pair.1 == name <;> simp [own]

/-- Names that differ do not get in each other's way. -/
theorem extend_comm {name other : String} (differ : name ≠ other) (value otherValue : Value)
    (valuation : Valuation) :
    extend name value (extend other otherValue valuation) =
      extend other otherValue (extend name value valuation) := by
  funext wanted
  simp only [extend]
  cases valuation wanted with
  | some found => rfl
  | none =>
    by_cases own : name = wanted
    · subst own
      simp [differ.symm]
    · simp [own]

/-- Pairs with distinct names give the same values in any order. -/
theorem ofPairs_perm {pairs others : List (String × Value)} (same : pairs.Perm others)
    (distinct : (pairs.map Prod.fst).Nodup) : ofPairs pairs = ofPairs others := by
  induction same with
  | nil => rfl
  | cons pair same inductionHypothesis =>
    rw [ofPairs_cons, ofPairs_cons, inductionHypothesis (List.nodup_cons.mp distinct).2]
  | swap pair other pairs =>
    have differ : other.1 ≠ pair.1 := by
      intro equal
      simp [equal] at distinct
    rw [ofPairs_cons, ofPairs_cons, ofPairs_cons, ofPairs_cons, extend_comm differ]
  | trans first _ onFirst onSecond =>
    exact (onFirst distinct).trans (onSecond ((first.map Prod.fst).nodup_iff.mp distinct))

end Formula.Valuation

open Formula (Valuation)

namespace Space

/-- The valuations of the points of a grid: those of the other domains, with each value of the
first. -/
def gridValuations : List Domain → Multiset Valuation
  | [] => {fun _ => none}
  | domain :: domains =>
    (Multiset.range domain.size).bind fun index =>
      (gridValuations domains).map (Valuation.extend domain.name (.float (domain.valueAt index)))

/-- Domains with distinct names may stand in any order.

Proof: two neighbours change places since an index of the one and an index of the other can be
chosen in either order. -/
theorem gridValuations_perm {domains others : List Domain} (same : domains.Perm others)
    (distinct : (domains.map Domain.name).Nodup) :
    gridValuations domains = gridValuations others := by
  induction same with
  | nil => rfl
  | cons domain same inductionHypothesis =>
    rw [gridValuations, gridValuations, inductionHypothesis (List.nodup_cons.mp distinct).2]
  | swap domain other domains =>
    have differ : other.name ≠ domain.name := by
      intro equal
      simp [equal] at distinct
    simp only [gridValuations, Multiset.map_bind, Multiset.map_map, Function.comp_def]
    rw [Multiset.bind_bind]
    simp only [Valuation.extend_comm differ]
  | trans first _ onFirst onSecond =>
    exact (onFirst distinct).trans (onSecond ((first.map Domain.name).nodup_iff.mp distinct))

/-- Counting up to a product is counting rounds and the places in a round. -/
theorem map_range_mul {α : Type} (rounds size : Nat) (read : Nat → α) :
    (Multiset.range (rounds * size)).map read =
      (Multiset.range rounds).bind fun round =>
        (Multiset.range size).map fun place => read (round * size + place) := by
  induction rounds with
  | zero => simp
  | succ rounds inductionHypothesis =>
    rw [Nat.succ_mul, Multiset.range_add, Multiset.map_add, inductionHypothesis,
      Multiset.range_succ, Multiset.cons_bind, Multiset.map_map, add_comm]
    rfl

/-- The names of some domains with the values at some indexes. -/
def bindingsAt (domains : List Domain) (indexes : List Nat) : List (String × Formula.Value) :=
  List.zipWith (fun domain index => (domain.name, .float (domain.valueAt index))) domains indexes

/-- A point binds each name to the value at its index. -/
theorem bindings_pointAt (space : Space) (number : Nat) :
    (space.pointAt number).bindings = bindingsAt space.domains (space.indexesAt number) := by
  simp only [Assignment.bindings, pointAt, bindingsAt]
  generalize space.indexesAt number = indexes
  induction space.domains generalizing indexes with
  | nil => rfl
  | cons domain domains inductionHypothesis =>
    cases indexes with
    | nil => rfl
    | cons index indexes => simp only [List.zipWith_cons_cons, inductionHypothesis]

/-- In a list all domains are at the same index. -/
theorem bindingsAt_map (domains : List Domain) (number : Nat) :
    bindingsAt domains (domains.map fun _ => number) =
      domains.map fun domain => (domain.name, .float (domain.valueAt number)) := by
  rw [bindingsAt, List.zipWith_map_right, List.zipWith_self]

/-- The points of a grid have the valuations of all combinations.

Proof: by induction on the domains. The numbers of a grid are as many rounds through the grid of the
other domains as the first domain has points, and the round is the index of the first. -/
theorem map_gridIndexes (domains : List Domain) :
    ((Multiset.range (volume domains)).map fun number =>
        Valuation.ofPairs (bindingsAt domains (gridIndexes domains number))) =
      gridValuations domains := by
  induction domains with
  | nil => rfl
  | cons domain domains inductionHypothesis =>
    rw [volume_cons, map_range_mul, gridValuations]
    refine Multiset.bind_congr fun round member => ?_
    rw [← inductionHypothesis, Multiset.map_map]
    refine Multiset.map_congr rfl fun place inside => ?_
    have roundInside := Multiset.mem_range.mp member
    have placeInside := Multiset.mem_range.mp inside
    have room : 0 < volume domains := Nat.zero_lt_of_lt placeInside
    have quotient : (round * volume domains + place) / volume domains = round := by
      rw [Nat.mul_comm, Nat.mul_add_div room, Nat.div_eq_of_lt placeInside, Nat.add_zero]
    have rest : gridIndexes domains (round * volume domains + place) =
        gridIndexes domains place := by
      rw [← gridIndexes_mod, Nat.mul_comm, Nat.mul_add_mod, gridIndexes_mod]
    rw [gridIndexes, quotient, Nat.mod_eq_of_lt roundInside, rest]
    exact Valuation.ofPairs_cons _ _

/-- The valuations of the points of a space. -/
def valuations (space : Space) : Multiset Valuation :=
  space.points.map fun assignment => Valuation.ofPairs assignment.bindings

/-- The valuations of a space are those of its points, by their numbers. -/
theorem valuations_eq (space : Space) : space.valuations =
    (Multiset.range space.size).map fun number =>
      Valuation.ofPairs (bindingsAt space.domains (space.indexesAt number)) := by
  rw [valuations, points, List.map_map]
  simp only [Function.comp_def, bindings_pointAt]
  rfl

/-- The order of the domains does not change how many points a grid has. -/
theorem volume_perm {domains others : List Domain} (same : domains.Perm others) :
    volume domains = volume others :=
  (same.map Domain.size).prod_eq

section

variable {space other : Space} (sized : space.Sized) (otherSized : other.Sized)
  (kind : other.kind = space.kind) (same : space.domains.Perm other.domains)

include sized otherSized kind same

/-- Spaces of one kind whose domains differ in nothing but their order have as many points. -/
theorem size_perm : other.size = space.size := by
  obtain ⟨domains, spaceKind, size⟩ := space
  obtain ⟨others, otherKind, otherSize⟩ := other
  obtain rfl : otherKind = spaceKind := kind
  cases otherKind with
  | grid => exact otherSized.trans ((volume_perm same).symm.trans sized.symm)
  | list =>
    cases domains with
    | nil => exact (otherSized.2 same.symm.eq_nil).trans (sized.2 rfl).symm
    | cons first rest =>
      have member : first ∈ others := same.mem_iff.mp List.mem_cons_self
      exact (otherSized.1 first member).symm.trans (sized.1 first List.mem_cons_self)

/-- If the names are distinct, the points have the same valuations. -/
theorem valuations_perm (distinct : (space.domains.map Domain.name).Nodup) :
    other.valuations = space.valuations := by
  rw [valuations_eq, valuations_eq, size_perm sized otherSized kind same]
  obtain ⟨domains, spaceKind, size⟩ := space
  obtain ⟨others, otherKind, otherSize⟩ := other
  obtain rfl : otherKind = spaceKind := kind
  cases otherKind with
  | grid =>
    obtain rfl : size = volume domains := sized
    simp only [indexesAt]
    rw [map_gridIndexes, volume_perm same, map_gridIndexes, gridValuations_perm same distinct]
  | list =>
    refine Multiset.map_congr rfl fun number _ => ?_
    simp only [indexesAt, bindingsAt_map]
    refine (Valuation.ofPairs_perm (same.map _) ?_).symm
    rwa [List.map_map]

end

/-- Domains in another order are refused for the same fault. -/
theorem make_error_perm {domains others : List Domain} (same : domains.Perm others)
    (made : ∀ domain ∈ domains, domain.IsMade) {kind : SpaceKind} {fault : Fault}
    (refused : make domains kind = .error fault) : make others kind = .error fault := by
  cases kind with
  | grid =>
    have positive : ∀ domain ∈ domains, 0 < domain.size :=
      fun domain member => (made domain member).size_bounds.1
    have otherPositive : ∀ domain ∈ others, 0 < domain.size :=
      fun domain member => positive domain (same.mem_iff.mpr member)
    rw [make_grid_eq_error_iff otherPositive, ← volume_perm same]
    exact (make_grid_eq_error_iff positive fault).mp refused
  | list =>
    rw [make_list_eq_error_iff]
    obtain ⟨rfl, one, oneMember, other, otherMember, differ⟩ :=
      (make_list_eq_error_iff domains fault).mp refused
    exact ⟨rfl, one, same.mem_iff.mp oneMember, other, same.mem_iff.mp otherMember, differ⟩

/-- Domains in another order make a space with as many points and the same valuations. -/
theorem make_ok_perm {domains others : List Domain} (same : domains.Perm others)
    (made : ∀ domain ∈ domains, domain.IsMade) (distinct : (domains.map Domain.name).Nodup)
    {kind : SpaceKind} {space : Space} (accepted : make domains kind = .ok space) :
    ∃ other, make others kind = .ok other ∧ other.size = space.size ∧
      other.domains.Perm space.domains ∧ other.valuations = space.valuations := by
  obtain ⟨rfl, rfl, sized⟩ := make_eq_ok accepted
  cases otherAccepted : make others space.kind with
  | error fault =>
    have otherMade : ∀ domain ∈ others, domain.IsMade :=
      fun domain member => made domain (same.mem_iff.mpr member)
    cases accepted.symm.trans (make_error_perm same.symm otherMade otherAccepted)
  | ok other =>
    obtain ⟨rfl, kind, otherSized⟩ := make_eq_ok otherAccepted
    exact ⟨other, rfl, size_perm sized otherSized kind same, same.symm,
      valuations_perm sized otherSized kind same distinct⟩

end Space

end ParamSweep
