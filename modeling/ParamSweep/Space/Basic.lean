import ParamSweep.Domain

/-!
# Spaces

A space is a list of domains and a way to combine them. A grid holds every combination of the
points of its domains; a list goes through all domains in step and therefore needs domains of
one size. The empty grid has one point, without values; the empty list has none.

The number of points of a grid is the product of the sizes and must stay below the limit of
counts. The product is formed from the left and given up as soon as it passes the limit: no
domain is empty, so it cannot come back below.
-/

namespace ParamSweep

/-- How the domains of a space are combined. -/
inductive SpaceKind
  | grid
  | list
  deriving DecidableEq, Repr

namespace SpaceKind

/-- The word for a kind of space. -/
def word : SpaceKind → String
  | grid => "GRID"
  | list => "LIST"

/-- The kind of space that a word stands for. -/
def ofWord? : String → Option SpaceKind
  | "GRID" => some grid
  | "LIST" => some list
  | _ => none

end SpaceKind

/-- Domains, how they are combined, and how many points that gives. -/
structure Space where
  domains : List Domain
  kind : SpaceKind
  size : Nat
  deriving Repr

namespace Space

/-- A product of two counts, if it is a count. -/
def boundedProduct? (total size : Nat) : Option Nat :=
  if total * size < countLimit then some (total * size) else none

/-- The number of points of a grid, if a count can hold it. -/
def gridSize? (domains : List Domain) : Option Nat :=
  domains.foldlM (fun total domain => boundedProduct? total domain.size) 1

/-- The number of points of a list, if its domains agree on it. -/
def listSize? : List Domain → Option Nat
  | [] => some 0
  | first :: rest => if rest.all (·.size = first.size) then some first.size else none

/-- The space over the given domains. -/
def make (domains : List Domain) (kind : SpaceKind) : Except Fault Space :=
  match kind with
  | .grid =>
    match gridSize? domains with
    | some size => .ok { domains, kind, size }
    | none => .error (.argument .spaceTooLarge)
  | .list =>
    match listSize? domains with
    | some size => .ok { domains, kind, size }
    | none => .error (.argument .sizeMismatch)

end Space

end ParamSweep
