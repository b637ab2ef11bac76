import ParamSweep.Formula.Value
import Std.Data.HashMap

/-!
# Valuations

A valuation gives values to names. Names may be repeated where a valuation is written down as
a list of pairs, and then the last pair of a name counts; a table filled pair by pair keeps
exactly that value.
-/

namespace ParamSweep.Formula

/-- The value of each name that has one. -/
abbrev Valuation := String → Option Value

namespace Valuation

/-- The last of the pairs with a name gives its value. -/
def ofPairs (pairs : List (String × Value)) : Valuation := fun name =>
  (pairs.reverse.find? (·.1 == name)).map (·.2)

/-- A table of values, each pair overwriting what its name had before. -/
def table (pairs : List (String × Value)) : Std.HashMap String Value :=
  pairs.foldl (fun entries (name, value) => entries.insert name value) ∅

/-- The values held in a table. -/
def ofTable (entries : Std.HashMap String Value) : Valuation := fun name => entries[name]?

end Valuation

end ParamSweep.Formula
