import Mathlib.Algebra.BigOperators.Group.List.Basic
import Mathlib.Data.List.Forall2
import Mathlib.Logic.Function.Iterate
import ParamSweep.Sweep

/-!
# Which points a walk visits

The points of a space can be numbered. In a grid the number of a point is written in the mixed
radix of the sizes, the last domain being the least significant digit, and its digits are the
indexes of the domains; in a list the number is itself the index of every domain.

The odometer of a walk adds one to these digits: a wheel that goes round moves its left neighbour
exactly when everything to its right has gone round. So the walk visits the points in the order
of their numbers, and its size, which is never found by walking, is the number of points it
visits. This needs no bound on the number of points, and no domain is looked at twice.
-/

namespace ParamSweep

namespace Domain

/-- A domain that was made with some ends and some step. Nothing else makes a domain. -/
def IsMade (domain : Domain) : Prop :=
  ∃ name lower step upper, make name lower step upper = .ok domain

/-- A domain has a point, and its number of points is a count. -/
theorem IsMade.size_bounds {domain : Domain} (made : domain.IsMade) :
    0 < domain.size ∧ domain.size < countLimit := by
  obtain ⟨name, lower, step, upper, accepted⟩ := made
  unfold make at accepted
  split at accepted
  next => cases accepted
  next =>
    split at accepted
    next => cases accepted
    next =>
      split at accepted
      next steps found =>
        cases accepted
        have inside := (Option.filter_eq_some_iff.mp found).2
        exact ⟨Nat.succ_pos steps, by simpa using inside⟩
      next => cases accepted

end Domain

namespace Space

/-- The number of combinations of the points of some domains, however large. -/
def volume (domains : List Domain) : Nat := (domains.map Domain.size).prod

/-- Without a domain there is one combination, which is empty. -/
@[simp] theorem volume_nil : volume [] = 1 := rfl

/-- Another domain makes as many times more combinations as it has points. -/
@[simp] theorem volume_cons (domain : Domain) (domains : List Domain) :
    volume (domain :: domains) = domain.size * volume domains :=
  List.prod_cons

/-- Where no domain is empty there is a combination. -/
theorem volume_pos {domains : List Domain} (positive : ∀ domain ∈ domains, 0 < domain.size) :
    0 < volume domains := by
  induction domains with
  | nil => exact Nat.one_pos
  | cons domain domains inductionHypothesis =>
    obtain ⟨here, others⟩ := List.forall_mem_cons.mp positive
    rw [volume_cons]
    exact Nat.mul_pos here (inductionHypothesis others)

/-- Where there is a combination, no domain is empty. -/
theorem size_pos_of_volume_pos {domains : List Domain} (positive : 0 < volume domains) :
    ∀ domain ∈ domains, 0 < domain.size := by
  induction domains with
  | nil => exact nofun
  | cons domain domains inductionHypothesis =>
    rw [volume_cons] at positive
    exact List.forall_mem_cons.mpr
      ⟨Nat.pos_of_mul_pos_right positive, inductionHypothesis (Nat.pos_of_mul_pos_left positive)⟩

/-- The indexes of the domains at the combination with a number. -/
def gridIndexes : List Domain → Nat → List Nat
  | [], _ => []
  | domain :: domains, number =>
    number / volume domains % domain.size :: gridIndexes domains number

/-- Whether every index is that of a point of its domain. -/
def InRange (indexes : List Nat) (domains : List Domain) : Prop :=
  List.Forall₂ (fun index domain => index < domain.size) indexes domains

/-- Every number is that of a combination, since the indexes start again. -/
theorem gridIndexes_inRange {domains : List Domain}
    (positive : ∀ domain ∈ domains, 0 < domain.size) (number : Nat) :
    InRange (gridIndexes domains number) domains := by
  induction domains with
  | nil => exact .nil
  | cons domain domains inductionHypothesis =>
    obtain ⟨here, others⟩ := List.forall_mem_cons.mp positive
    exact .cons (Nat.mod_lt _ here) (inductionHypothesis others)

/-- The indexes start again after all combinations. -/
theorem gridIndexes_mod (domains : List Domain) (number : Nat) :
    gridIndexes domains (number % volume domains) = gridIndexes domains number := by
  induction domains generalizing number with
  | nil => rfl
  | cons domain domains inductionHypothesis =>
    simp only [gridIndexes, volume_cons, Nat.mod_mul_left_div_self, Nat.mod_mod]
    rw [← inductionHypothesis (number % (domain.size * volume domains)), Nat.mod_mul_left_mod,
      inductionHypothesis]

/-- Turning the odometer adds one to the number that its wheels show; all wheels go round exactly
if the next number is that of no further combination.

Proof: by induction on the domains. The wheels to the right of the first go round exactly if
their volume divides the next number, and then the quotient, which the first wheel shows, grows
by one. -/
theorem turn_gridIndexes {domains : List Domain}
    (positive : ∀ domain ∈ domains, 0 < domain.size) (number : Nat) :
    Walk.turn domains (gridIndexes domains number) =
      (gridIndexes domains (number + 1), decide (volume domains ∣ number + 1)) := by
  induction domains with
  | nil => simp [Walk.turn, gridIndexes]
  | cons domain domains inductionHypothesis =>
    obtain ⟨here, others⟩ := List.forall_mem_cons.mp positive
    have room : 0 < volume domains := volume_pos others
    have turned := inductionHypothesis others
    by_cases round : volume domains ∣ number + 1
    · have quotient : (number + 1) / volume domains = number / volume domains + 1 := by
        rw [Nat.succ_div, if_pos round]
      have whole : number + 1 = volume domains * (number / volume domains + 1) := by
        rw [← quotient, Nat.mul_div_cancel' round]
      have goesRound : domain.size * volume domains ∣ number + 1 ↔
          (number / volume domains + 1) % domain.size = 0 := by
        rw [Nat.mul_comm, whole, Nat.mul_dvd_mul_iff_left room, Nat.dvd_iff_mod_eq_zero]
      simp only [decide_eq_true round] at turned
      simp only [Walk.turn, gridIndexes, turned, quotient, volume_cons, goesRound]
      have inside := Nat.mod_lt (number / volume domains) here
      have next : (number / volume domains + 1) % domain.size =
          if number / volume domains % domain.size + 1 < domain.size then
            number / volume domains % domain.size + 1 else 0 := by
        rw [← Nat.mod_add_mod]
        split
        next less => exact Nat.mod_eq_of_lt less
        next notLess =>
          have last : number / volume domains % domain.size + 1 = domain.size := by omega
          rw [last, Nat.mod_self]
      rw [next]
      split <;> simp
    · have quotient : (number + 1) / volume domains = number / volume domains := by
        rw [Nat.succ_div, if_neg round, Nat.add_zero]
      have notRound : ¬domain.size * volume domains ∣ number + 1 :=
        fun divides => round (Nat.dvd_trans (Nat.dvd_mul_left _ _) divides)
      simp only [decide_eq_false round] at turned
      simp only [Walk.turn, gridIndexes, turned, quotient, volume_cons,
        decide_eq_false notRound]

/-- Every combination of indexes has one number. -/
theorem existsUnique_number {domains : List Domain} {indexes : List Nat}
    (inRange : InRange indexes domains) :
    ∃! number, number < volume domains ∧ gridIndexes domains number = indexes := by
  induction inRange with
  | nil => exact ⟨0, ⟨Nat.one_pos, rfl⟩, fun number ⟨inside, _⟩ => Nat.lt_one_iff.mp inside⟩
  | @cons index domain indexes domains below inRange inductionHypothesis =>
    obtain ⟨rest, ⟨inside, digits⟩, unique⟩ := inductionHypothesis
    have room : 0 < volume domains := Nat.zero_lt_of_lt inside
    have quotient : (rest + volume domains * index) / volume domains = index := by
      rw [Nat.add_mul_div_left _ _ room, Nat.div_eq_of_lt inside, Nat.zero_add]
    refine ⟨rest + volume domains * index, ⟨?_, ?_⟩, ?_⟩
    · have most : volume domains * (index + 1) ≤ volume domains * domain.size :=
        Nat.mul_le_mul_left _ below
      rw [volume_cons, Nat.mul_comm domain.size]
      rw [Nat.mul_succ] at most
      omega
    · rw [gridIndexes, quotient, Nat.mod_eq_of_lt below, ← gridIndexes_mod,
        Nat.add_mul_mod_self_left, gridIndexes_mod, digits]
    · rintro number ⟨numberInside, same⟩
      rw [volume_cons] at numberInside
      obtain ⟨first, others⟩ := List.cons.inj same
      have less : number / volume domains < domain.size :=
        (Nat.div_lt_iff_lt_mul room).mpr numberInside
      rw [Nat.mod_eq_of_lt less] at first
      have own : number % volume domains = rest :=
        unique _ ⟨Nat.mod_lt _ room, (gridIndexes_mod domains number).trans others⟩
      rw [← own, ← first, Nat.mod_add_div]

/-- The index of one domain alone. -/
theorem getElem?_gridIndexes (domains : List Domain) (number place : Nat) :
    (gridIndexes domains number)[place]? =
      domains[place]?.map fun domain =>
        number / volume (domains.drop (place + 1)) % domain.size := by
  induction domains generalizing place with
  | nil => rfl
  | cons domain domains inductionHypothesis =>
    cases place with
    | zero => rfl
    | succ place => simpa [gridIndexes] using inductionHypothesis place

/-- The first combination is that of the first points. -/
@[simp] theorem gridIndexes_zero (domains : List Domain) :
    gridIndexes domains 0 = domains.map fun _ => 0 := by
  induction domains with
  | nil => rfl
  | cons domain domains inductionHypothesis => simp [gridIndexes, inductionHypothesis]

/-- The indexes of the domains at the point with a number. -/
def indexesAt (space : Space) (number : Nat) : List Nat :=
  match space.kind with
  | .grid => gridIndexes space.domains number
  | .list => space.domains.map fun _ => number

/-- The point with a number. -/
def pointAt (space : Space) (number : Nat) : Assignment :=
  { domains := space.domains
    values := List.zipWith Domain.valueAt space.domains (space.indexesAt number) }

/-- All points, in the order of their numbers. -/
def points (space : Space) : List Assignment := (List.range space.size).map space.pointAt

/-- There are as many points as the size says. -/
@[simp] theorem length_points (space : Space) : space.points.length = space.size := by
  simp [points]

/-- Whether the size of a space is that of its domains. -/
def Sized (space : Space) : Prop :=
  match space.kind with
  | .grid => space.size = volume space.domains
  | .list => (∀ domain ∈ space.domains, domain.size = space.size) ∧
      (space.domains = [] → space.size = 0)

/-- The product that is given up above the limit is the volume, or the limit was passed. -/
theorem foldlM_boundedProduct? {domains : List Domain}
    (positive : ∀ domain ∈ domains, 0 < domain.size) {total : Nat} (count : total < countLimit) :
    domains.foldlM (fun total domain => boundedProduct? total domain.size) total =
      if total * volume domains < countLimit then some (total * volume domains) else none := by
  induction domains generalizing total with
  | nil => simp [count]
  | cons domain domains inductionHypothesis =>
    obtain ⟨here, others⟩ := List.forall_mem_cons.mp positive
    rw [List.foldlM_cons, boundedProduct?, volume_cons, ← Nat.mul_assoc]
    split
    next inside => exact inductionHypothesis others inside
    next outside =>
      have more : total * domain.size ≤ total * domain.size * volume domains :=
        Nat.le_mul_of_pos_right _ (volume_pos others)
      rw [if_neg (by omega)]
      rfl

/-- A product that was not given up is the volume, even where a domain is empty. -/
theorem foldlM_boundedProduct?_eq_some {domains : List Domain} {total size : Nat}
    (found : domains.foldlM (fun total domain => boundedProduct? total domain.size) total =
      some size) : size = total * volume domains := by
  induction domains generalizing total with
  | nil => simpa using (Option.some.inj found).symm
  | cons domain domains inductionHypothesis =>
    obtain ⟨product, bounded, rest⟩ := Option.bind_eq_some_iff.mp found
    simp only [boundedProduct?] at bounded
    split at bounded
    next =>
      cases bounded
      rw [inductionHypothesis rest, volume_cons, Nat.mul_assoc]
    next => cases bounded

/-- The size of a grid is its volume, if that can be counted. -/
theorem gridSize?_eq {domains : List Domain} (positive : ∀ domain ∈ domains, 0 < domain.size) :
    gridSize? domains =
      if volume domains < countLimit then some (volume domains) else none := by
  have small : 1 < countLimit := by decide
  have product := foldlM_boundedProduct? positive small
  rwa [Nat.one_mul] at product

/-- A list has a size exactly if no two of its domains differ in theirs. -/
theorem listSize?_eq_none (domains : List Domain) :
    listSize? domains = none ↔ ∃ one ∈ domains, ∃ other ∈ domains, one.size ≠ other.size := by
  cases domains with
  | nil => simp [listSize?]
  | cons first rest =>
    simp only [listSize?, ite_eq_right_iff, reduceCtorEq, imp_false, List.all_eq_true,
      decide_eq_true_eq, not_forall]
    constructor
    · rintro ⟨other, member, differs⟩
      exact ⟨other, List.mem_cons_of_mem _ member, first, List.mem_cons_self, differs⟩
    · rintro ⟨one, oneMember, other, otherMember, differ⟩
      by_contra agree
      have same : ∀ domain ∈ first :: rest, domain.size = first.size := by
        refine List.forall_mem_cons.mpr ⟨rfl, fun domain member => ?_⟩
        by_contra differs
        exact agree ⟨domain, member, differs⟩
      exact differ ((same one oneMember).trans (same other otherMember).symm)

/-- What a space that was made has of its domains. -/
theorem make_eq_ok {domains : List Domain} {kind : SpaceKind} {space : Space}
    (made : make domains kind = .ok space) :
    space.domains = domains ∧ space.kind = kind ∧ space.Sized := by
  cases kind with
  | grid =>
    simp only [make] at made
    split at made
    next size found =>
      cases made
      refine ⟨rfl, rfl, ?_⟩
      simpa [Sized] using foldlM_boundedProduct?_eq_some found
    next => cases made
  | list =>
    simp only [make] at made
    split at made
    next size found =>
      cases made
      refine ⟨rfl, rfl, ?_⟩
      cases domains with
      | nil => simpa [Sized, listSize?] using found.symm
      | cons first rest =>
        simp only [listSize?, Option.ite_none_right_eq_some, Option.some.injEq, List.all_eq_true,
          decide_eq_true_eq] at found
        obtain ⟨agree, rfl⟩ := found
        exact ⟨List.forall_mem_cons.mpr ⟨rfl, agree⟩, nofun⟩
    next => cases made

/-- At the number of a point every index is in the range of its domain. -/
theorem Sized.indexesAt_inRange {space : Space} (sized : space.Sized) {number : Nat}
    (inside : number < space.size) : InRange (space.indexesAt number) space.domains := by
  obtain ⟨domains, kind, size⟩ := space
  cases kind with
  | grid =>
    obtain rfl : size = volume domains := sized
    exact gridIndexes_inRange (size_pos_of_volume_pos (Nat.zero_lt_of_lt inside)) number
  | list =>
    refine List.forall₂_map_left_iff.mpr (List.forall₂_same.mpr fun domain member => ?_)
    rw [sized.1 domain member]
    exact inside

/-- What the wheels of a walk show when it comes to the point with a number. -/
def wheelsAt (space : Space) (number : Nat) : List Nat :=
  match space.kind with
  | .grid => gridIndexes space.domains number
  | .list => space.domains.map fun _ => 0

/-- The wheels of a walk never show an index that its domain has not. -/
theorem wheelsAt_inRange {space : Space} (positive : ∀ domain ∈ space.domains, 0 < domain.size)
    (number : Nat) : InRange (space.wheelsAt number) space.domains := by
  obtain ⟨domains, kind, size⟩ := space
  cases kind with
  | grid => exact gridIndexes_inRange positive number
  | list => exact List.forall₂_map_left_iff.mpr (List.forall₂_same.mpr positive)

end Space

namespace Walk

/-- The walk after one more call, whatever the call gave. -/
def onward (walk : Walk) : Walk :=
  match walk.next? with
  | some (_, rest) => rest
  | none => walk

/-- Visiting points passes the state along the points that the walk has left. -/
theorem visit_eq_foldlM {ε σ : Type} (act : σ → Assignment → Except ε σ) (count : Nat)
    (walk : Walk) (state : σ) :
    visit act count walk state = (walk.points count).foldlM act state := by
  induction count generalizing walk state with
  | zero => rfl
  | succ count inductionHypothesis =>
    rw [visit, points]
    cases walk.next? with
    | none => rfl
    | some next => simp only [List.foldlM_cons, inductionHypothesis]

end Walk

namespace Space

/-- The walk through a space after some calls. -/
def walkAfter (space : Space) (calls : Nat) : Walk := Walk.onward^[calls] space.walk

/-- Where a walk stands. Once it has visited all points nothing changes any more.

Proof: by induction on the calls. In a grid a call turns the odometer, which adds one to the
number it shows. -/
theorem Sized.walkAfter_eq {space : Space} (sized : space.Sized) (calls : Nat) :
    space.walkAfter calls =
      { space
        indexes := space.wheelsAt (min calls space.size)
        visited := min calls space.size } := by
  induction calls with
  | zero =>
    obtain ⟨domains, kind, size⟩ := space
    cases kind <;> simp [walkAfter, walk, wheelsAt]
  | succ calls inductionHypothesis =>
    rw [walkAfter, Function.iterate_succ_apply', ← walkAfter, inductionHypothesis]
    by_cases inside : calls < space.size
    · have now : min calls space.size = calls := by omega
      have next : min (calls + 1) space.size = calls + 1 := by omega
      rw [now, next, Walk.onward, Walk.next?, if_pos inside]
      obtain ⟨domains, kind, size⟩ := space
      cases kind with
      | grid =>
        obtain rfl : size = volume domains := sized
        have positive := size_pos_of_volume_pos (Nat.zero_lt_of_lt inside)
        simp only [Walk.nextIndexes, wheelsAt, turn_gridIndexes positive]
      | list => rfl
    · have now : min calls space.size = space.size := by omega
      have next : min (calls + 1) space.size = space.size := by omega
      rw [now, next, Walk.onward, Walk.next?, if_neg (Nat.lt_irrefl _)]

/-- What a call gives, and where it leads. -/
theorem Sized.next?_walkAfter {space : Space} (sized : space.Sized) (calls : Nat) :
    (space.walkAfter calls).next? =
      if calls < space.size then some (space.pointAt calls, space.walkAfter (calls + 1))
      else none := by
  have onward : space.walkAfter (calls + 1) = (space.walkAfter calls).onward :=
    Function.iterate_succ_apply' _ _ _
  rw [onward, Walk.onward, sized.walkAfter_eq]
  by_cases inside : calls < space.size
  · have now : min calls space.size = calls := by omega
    rw [now, if_pos inside, Walk.next?, if_pos inside]
    obtain ⟨domains, kind, size⟩ := space
    cases kind with
    | grid => rfl
    | list =>
      simp only [Walk.values, pointAt, indexesAt, List.zipWith_map_right, List.zipWith_self]
  · have now : min calls space.size = space.size := by omega
    rw [now, if_neg inside, Walk.next?, if_neg (Nat.lt_irrefl _)]

/-- Each call leaves one point less, as long as there is one. -/
theorem Sized.remaining_walkAfter {space : Space} (sized : space.Sized) (calls : Nat) :
    (space.walkAfter calls).remaining = space.size - calls := by
  simp only [sized.walkAfter_eq, Walk.remaining]
  omega

/-- The points that a walk has left are those with the numbers it has left. -/
theorem Sized.points_walkAfter {space : Space} (sized : space.Sized) (count calls : Nat) :
    (space.walkAfter calls).points count =
      (List.range' calls (min count (space.size - calls))).map space.pointAt := by
  induction count generalizing calls with
  | zero => simp [Walk.points]
  | succ count inductionHypothesis =>
    rw [Walk.points, sized.next?_walkAfter]
    by_cases inside : calls < space.size
    · have left : min (count + 1) (space.size - calls) =
          min count (space.size - (calls + 1)) + 1 := by omega
      rw [if_pos inside, left, List.range'_succ, List.map_cons]
      simp only [inductionHypothesis]
    · have nothing : min (count + 1) (space.size - calls) = 0 := by omega
      rw [if_neg inside, nothing]
      rfl

/-- A walk visits all points in the order of their numbers. -/
theorem Sized.points_walk {space : Space} (sized : space.Sized) :
    space.walk.points space.size = space.points := by
  have all := sized.points_walkAfter space.size 0
  rwa [Nat.sub_zero, Nat.min_self, ← List.range_eq_range'] at all

/-- A grid is refused exactly if it has more points than a count can hold. -/
theorem make_grid_eq_error_iff {domains : List Domain}
    (positive : ∀ domain ∈ domains, 0 < domain.size) (fault : Fault) :
    make domains .grid = .error fault ↔
      fault = .argument .spaceTooLarge ∧ countLimit ≤ volume domains := by
  rw [make, gridSize?_eq positive]
  by_cases inside : volume domains < countLimit
  · simp [if_pos inside, Nat.not_le_of_lt inside]
  · simp [if_neg inside, Nat.le_of_not_lt inside, eq_comm]

/-- A list is refused exactly if two of its domains differ in their sizes. -/
theorem make_list_eq_error_iff (domains : List Domain) (fault : Fault) :
    make domains .list = .error fault ↔
      fault = .argument .sizeMismatch ∧
        ∃ one ∈ domains, ∃ other ∈ domains, one.size ≠ other.size := by
  rw [← listSize?_eq_none, make]
  cases found : listSize? domains with
  | none => simp [eq_comm]
  | some size => simp

/-- What a walk through a space over some domains does, call by call. -/
structure Enumerated (space : Space) (domains : List Domain) : Prop where
  /-- As long as there are points left a call gives the next one; after that it gives nothing. -/
  next : ∀ calls, (space.walkAfter calls).next? =
    if calls < space.size then some (space.pointAt calls, space.walkAfter (calls + 1)) else none
  exhausted : ∀ calls, space.size ≤ calls → space.walkAfter calls = space.walkAfter space.size
  length : ∀ number, (space.pointAt number).values.length = domains.length
  /-- The last domain of a grid is the fastest. -/
  grid : space.kind = .grid → ∀ (number place : Nat) (domain : Domain),
    domains[place]? = some domain → (space.pointAt number).values[place]? =
      some (domain.valueAt (number / volume (domains.drop (place + 1)) % domain.size))
  list : space.kind = .list → ∀ (number place : Nat) (domain : Domain),
    domains[place]? = some domain →
      (space.pointAt number).values[place]? = some (domain.valueAt number)
  inRange : ∀ number, number < space.size → InRange (space.indexesAt number) domains
  once : space.kind = .grid → ∀ indexes, InRange indexes domains →
    ∃! number, number < space.size ∧ space.indexesAt number = indexes
  /-- What is said to remain is what will still come, however long one goes on. -/
  remaining : ∀ calls limit, ((space.walkAfter calls).points limit).length =
    min limit (space.walkAfter calls).remaining
  visited : ∀ calls, (space.walkAfter calls).visited ≤ space.size
  /-- No wheel can leave the range of counts when it moves on. -/
  wheels : ∀ calls, ∀ index ∈ (space.walkAfter calls).indexes, index + 1 < countLimit
  size_lt : space.size < countLimit

/-- A point has the value of each domain at the index that is shown for it. -/
theorem getElem?_values_pointAt {space : Space} {number place index : Nat} {domain : Domain}
    (stands : space.domains[place]? = some domain)
    (shown : (space.indexesAt number)[place]? = some index) :
    (space.pointAt number).values[place]? = some (domain.valueAt index) := by
  simp only [pointAt, List.getElem?_zipWith, stands, shown]

/-- A point has an index for each domain. -/
theorem length_indexesAt (space : Space) (number : Nat) :
    (space.indexesAt number).length = space.domains.length := by
  obtain ⟨domains, kind, size⟩ := space
  cases kind with
  | grid =>
    induction domains with
    | nil => rfl
    | cons domain domains inductionHypothesis => exact congrArg (· + 1) inductionHypothesis
  | list => exact List.length_map _

/-- A size is a count, if those of the domains are. -/
theorem size_lt_of_make {domains : List Domain} (made : ∀ domain ∈ domains, domain.IsMade)
    {kind : SpaceKind} {space : Space} (accepted : make domains kind = .ok space) :
    space.size < countLimit := by
  obtain ⟨rfl, rfl, sized⟩ := make_eq_ok accepted
  obtain ⟨domains, kind, size⟩ := space
  cases kind with
  | grid =>
    by_contra large
    have positive : ∀ domain ∈ domains, 0 < domain.size :=
      fun domain member => (made domain member).size_bounds.1
    obtain rfl : size = volume domains := sized
    have refused := (make_grid_eq_error_iff positive _).mpr ⟨rfl, Nat.le_of_not_lt large⟩
    cases accepted.symm.trans refused
  | list =>
    cases domains with
    | nil =>
      obtain rfl : size = 0 := sized.2 rfl
      exact Number.powerOfTwo_pos 64
    | cons first rest =>
      obtain rfl : first.size = size := sized.1 first List.mem_cons_self
      exact (made first List.mem_cons_self).size_bounds.2

/-- An index in range is in range of one of the domains. -/
theorem InRange.exists_domain {indexes : List Nat} {domains : List Domain}
    (inRange : InRange indexes domains) {index : Nat} (member : index ∈ indexes) :
    ∃ domain ∈ domains, index < domain.size := by
  induction inRange with
  | nil => cases member
  | cons below others inductionHypothesis =>
    rcases List.mem_cons.mp member with rfl | member
    · exact ⟨_, List.mem_cons_self, below⟩
    · obtain ⟨domain, known, inside⟩ := inductionHypothesis member
      exact ⟨domain, List.mem_cons_of_mem _ known, inside⟩

/-- Domains that were made form a grid unless it would have more points than a count can hold,
and a list unless two of them differ in size. The walk through the space visits the points in the
order of their numbers, each once, and then gives nothing for good; the indexes of a point are the
digits of its number. Every index at which a value is taken is in the range of its domain, every
counter stays in the range of counts, and what is said to remain is what will come. So a sweep
that only counts, and never walks, answers with the number of points that a walk would visit.

Proof: the odometer shows the number of calls in the mixed radix of the sizes. The product of the
sizes cannot come back below the limit once it has passed it, since no domain is empty. -/
theorem enumerated_of_made {domains : List Domain}
    (made : ∀ domain ∈ domains, domain.IsMade) :
    (∀ fault, make domains .grid = .error fault ↔
      fault = .argument .spaceTooLarge ∧ countLimit ≤ volume domains) ∧
    (∀ fault, make domains .list = .error fault ↔
      fault = .argument .sizeMismatch ∧
        ∃ one ∈ domains, ∃ other ∈ domains, one.size ≠ other.size) ∧
    ∀ kind space, make domains kind = .ok space →
      space.domains = domains ∧ space.kind = kind ∧ space.Enumerated domains ∧
      ∀ formulas limit, space.size ≤ limit →
        Sweep.run { aggregate := .count, kind, domains, formulas } =
          .ok (.whole (space.walk.points limit).length) := by
  have positive : ∀ domain ∈ domains, 0 < domain.size :=
    fun domain member => (made domain member).size_bounds.1
  refine ⟨make_grid_eq_error_iff positive, make_list_eq_error_iff domains, ?_⟩
  intro kind space accepted
  have small := size_lt_of_make made accepted
  obtain ⟨rfl, rfl, sized⟩ := make_eq_ok accepted
  have left (calls limit : Nat) : ((space.walkAfter calls).points limit).length =
      min limit (space.walkAfter calls).remaining := by
    rw [sized.points_walkAfter, sized.remaining_walkAfter, List.length_map, List.length_range']
  refine ⟨rfl, rfl, ?_, ?_⟩
  · refine
      { next := sized.next?_walkAfter
        exhausted := fun calls late => ?_
        length := fun number => ?_
        grid := fun kind number place domain stands => ?_
        list := fun kind number place domain stands => ?_
        inRange := fun number inside => sized.indexesAt_inRange inside
        once := fun kind indexes inRange => ?_
        remaining := left
        visited := fun calls => ?_
        wheels := fun calls index member => ?_
        size_lt := small }
    · rw [sized.walkAfter_eq, sized.walkAfter_eq, Nat.min_eq_right late, Nat.min_self]
    · rw [pointAt, List.length_zipWith, length_indexesAt, Nat.min_self]
    · have index : (space.indexesAt number)[place]? =
          some (number / volume (space.domains.drop (place + 1)) % domain.size) := by
        rw [indexesAt, kind, getElem?_gridIndexes, stands]
        rfl
      exact getElem?_values_pointAt stands index
    · have index : (space.indexesAt number)[place]? = some number := by
        rw [indexesAt, kind, List.getElem?_map, stands]
        rfl
      exact getElem?_values_pointAt stands index
    · -- On a grid, and only there, every combination of indexes is a point.
      have volumeSize : space.size = volume space.domains := by
        simpa only [Sized, kind] using sized
      simpa only [indexesAt, kind, volumeSize] using existsUnique_number inRange
    · rw [sized.walkAfter_eq]
      exact Nat.min_le_right _ _
    · rw [sized.walkAfter_eq] at member
      obtain ⟨domain, known, inside⟩ :=
        (wheelsAt_inRange positive (min calls space.size)).exists_domain member
      exact Nat.lt_of_le_of_lt inside (made domain known).size_bounds.2
  · intro formulas limit enough
    have all : (space.walk.points limit).length = space.size := by
      refine (left 0 limit).trans ?_
      rw [sized.remaining_walkAfter, Nat.sub_zero, Nat.min_eq_right enough]
    rw [all, Sweep.run, accepted]
    rfl

/-- Two values of `x` and three of `y`. -/
def crossing : List Domain :=
  [{ name := "x", lower := 0, step := 1, upper := 1, size := 2 },
    { name := "y", lower := 10, step := 5, upper := 20, size := 3 }]

/-- The fifth of six points: the second value of `x` and the second of `y`. -/
theorem enumerated_of_made_crossing :
    ∃ space, make crossing .grid = .ok space ∧ space.size = 6 ∧
      ((space.walkAfter 4).next?.map fun next => next.1.values) = some [1, 15] ∧
      (space.walkAfter 6).next?.isNone = true ∧
      Sweep.run { aggregate := .count, kind := .grid, domains := crossing, formulas := ["x"] } =
        .ok (.whole (space.walk.points 6).length) := by
  have made : ∀ domain ∈ crossing, domain.IsMade :=
    List.forall_mem_cons.mpr ⟨⟨"x", 0, 1, 1, rfl⟩, List.forall_mem_cons.mpr
      ⟨⟨"y", 10, 5, 20, rfl⟩, nofun⟩⟩
  obtain ⟨-, -, walks⟩ := enumerated_of_made made
  have accepted : make crossing .grid = .ok ⟨crossing, .grid, 6⟩ := rfl
  obtain ⟨-, -, enumerated, counted⟩ := walks .grid _ accepted
  refine ⟨_, accepted, rfl, ?_, ?_, counted ["x"] 6 (Nat.le_refl 6)⟩
  · rw [enumerated.next]
    decide +kernel
  · rw [enumerated.next]
    rfl

end Space

end ParamSweep
