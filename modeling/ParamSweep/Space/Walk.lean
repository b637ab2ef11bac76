import ParamSweep.Formula.Valuation
import ParamSweep.Space.Basic

/-!
# Walking through a space

A walk visits the points of a space one after the other and never holds more than one of them.
In a grid it keeps one index per domain and counts like an odometer whose last wheel is the
fastest: a wheel that would leave its domain goes back to zero and moves its left neighbour.
In a list all indexes equal the number of points visited so far.

A point gives each domain a value. If two domains share a name, the name means the later one.
-/

namespace ParamSweep

/-- A point of a space: the values of the domains, in the order of the domains. -/
structure Assignment where
  domains : List Domain
  values : List Float
  deriving Repr

namespace Assignment

/-- The value of the last domain with a name. -/
def lastValue? (name : String) : List Domain → List Float → Option Float
  | domain :: domains, value :: values =>
    match lastValue? name domains values with
    | some later => some later
    | none => if domain.name == name then some value else none
  | _, _ => none

/-- The valuation that a point gives to formulas. -/
def valuation (assignment : Assignment) : Formula.Valuation := fun name =>
  (lastValue? name assignment.domains assignment.values).map .float

end Assignment

/-- A walk through a space: the index of every domain, and how many points were visited. -/
structure Walk where
  space : Space
  indexes : List Nat
  visited : Nat
  deriving Repr

namespace Walk

/-- Moves the last wheel of the odometer on; the flag tells that all wheels went round. -/
def turn : List Domain → List Nat → List Nat × Bool
  | domain :: domains, index :: indexes =>
    match turn domains indexes with
    | (turned, false) => (index :: turned, false)
    | (turned, true) =>
      if index + 1 < domain.size then ((index + 1) :: turned, false) else (0 :: turned, true)
  | _, _ => ([], true)

/-- How many points are still to be visited. -/
def remaining (walk : Walk) : Nat := walk.space.size - walk.visited

/-- The values at the current point. -/
def values (walk : Walk) : List Float :=
  match walk.space.kind with
  | .grid => List.zipWith Domain.valueAt walk.space.domains walk.indexes
  | .list => walk.space.domains.map (·.valueAt walk.visited)

/-- The indexes of the point after the current one. -/
def nextIndexes (walk : Walk) : List Nat :=
  match walk.space.kind with
  | .grid => (turn walk.space.domains walk.indexes).1
  | .list => walk.indexes

/-- The current point and the rest of the walk, until every point was visited. -/
def next? (walk : Walk) : Option (Assignment × Walk) :=
  if walk.visited < walk.space.size then
    some
      ({ domains := walk.space.domains, values := walk.values },
        { walk with indexes := walk.nextIndexes, visited := walk.visited + 1 })
  else
    none

/-- Visits at most `count` points, passing a state along until a visit fails. -/
def visit {ε σ : Type} (act : σ → Assignment → Except ε σ) :
    (count : Nat) → Walk → σ → Except ε σ
  | 0, _, state => .ok state
  | count + 1, walk, state =>
    match walk.next? with
    | none => .ok state
    | some (assignment, rest) => do
      let state ← act state assignment
      visit act count rest state

/-- The next points of a walk, at most `count` of them. -/
def points : (count : Nat) → Walk → List Assignment
  | 0, _ => []
  | count + 1, walk =>
    match walk.next? with
    | none => []
    | some (assignment, rest) => assignment :: points count rest

end Walk

/-- The walk through a space from its first point. -/
def Space.walk (space : Space) : Walk :=
  { space, indexes := space.domains.map fun _ => 0, visited := 0 }

end ParamSweep
