import ParamSweep.Proofs.Formula.Recursion
import ParamSweep.Proofs.Sweep.Denotation

/-!
# Where a formula finds the values of its names

A formula looks its names up and asks for nothing else, so its value follows from the values of the
names in its text, and it is the same fault that is found where some of them have none.

Values are found in three places: in a list of pairs that is searched from its end, in a table that
has been filled pair by pair, and in a point of a space whose domains have the names. All three give
a name the value of its last pair.
-/

namespace ParamSweep

namespace Formula

/-- What the last pair of a name gives it. -/
inductive LastBinding (pairs : List (String × Value)) (name : String) : Option Value → Prop
  | unbound (absent : name ∉ pairs.map Prod.fst) : LastBinding pairs name none
  | bound {before behind : List (String × Value)} {value : Value}
      (parts : pairs = before ++ (name, value) :: behind) (last : name ∉ behind.map Prod.fst) :
      LastBinding pairs name (some value)

namespace Valuation

/-- The last of some pairs comes before all others. -/
theorem ofPairs_concat (pairs : List (String × Value)) (pair : String × Value) (name : String) :
    ofPairs (pairs ++ [pair]) name =
      if pair.1 == name then some pair.2 else ofPairs pairs name := by
  rw [ofPairs, List.reverse_append, List.reverse_singleton, List.singleton_append, List.find?_cons]
  cases pair.1 == name <;> rfl

/-- A pair that is put into a table replaces what its name had. -/
theorem table_concat (pairs : List (String × Value)) (pair : String × Value) :
    table (pairs ++ [pair]) = (table pairs).insert pair.1 pair.2 := by
  rw [table, List.foldl_append]
  rfl

/-- A table that is filled pair by pair has the values of the pairs. -/
theorem ofTable_table (pairs : List (String × Value)) : ofTable (table pairs) = ofPairs pairs := by
  funext name
  induction pairs using List.reverseRecOn with
  | nil => exact Std.HashMap.getElem?_empty
  | append_singleton pairs pair inductionHypothesis =>
    rw [ofPairs_concat, table_concat, ofTable, Std.HashMap.getElem?_insert, ← inductionHypothesis]
    rfl

/-- Searching pairs from the end finds the last one of a name. -/
theorem lastBinding_ofPairs (pairs : List (String × Value)) (name : String) :
    LastBinding pairs name (ofPairs pairs name) := by
  induction pairs using List.reverseRecOn with
  | nil => exact .unbound List.not_mem_nil
  | append_singleton pairs pair inductionHypothesis =>
    rw [ofPairs_concat]
    by_cases own : pair.1 = name
    · subst own
      rw [if_pos BEq.rfl]
      exact .bound rfl List.not_mem_nil
    · rw [if_neg (mt beq_iff_eq.mp own)]
      have apart {others : List (String × Value)} (absent : name ∉ others.map Prod.fst) :
          name ∉ (others ++ [pair]).map Prod.fst := by
        rw [List.map_append, List.mem_append, not_or]
        exact ⟨absent, fun member => own (List.mem_singleton.mp member).symm⟩
      generalize ofPairs pairs name = result at inductionHypothesis
      cases inductionHypothesis with
      | unbound absent => exact .unbound (apart absent)
      | @bound before behind _ parts last =>
        refine @LastBinding.bound _ _ before (behind ++ [pair]) _ ?_ (apart last)
        rw [parts, List.append_assoc, List.cons_append]

end Valuation

/-- The value of a term follows from the values of its names. -/
theorem Term.value_congr {term : Term} {first second : Valuation}
    (same : ∀ name ∈ term.names, first name = second name) :
    term.value first = term.value second := by
  induction term with
  | number value => rfl
  | name text => rw [Term.value, Term.value, same text (List.mem_singleton.mpr rfl)]
  | group inner inductionHypothesis => exact inductionHypothesis same
  | operation op left right onLeft onRight =>
    obtain ⟨inLeft, inRight⟩ := List.forall_mem_append.mp same
    rw [Term.value, Term.value, onLeft inLeft, onRight inRight]

end Formula

/-- A point whose domains have the names of some pairs and whose values are theirs gives the names
the values of the pairs. -/
theorem Assignment.valuation_of_pairs {assignment : Assignment}
    {pairs : List (String × Formula.Value)}
    (names : assignment.domains.map Domain.name = pairs.map Prod.fst)
    (values : assignment.values.map Formula.Value.float = pairs.map Prod.snd) :
    assignment.valuation = .ofPairs pairs := by
  have bindings : assignment.bindings =
      List.zipWith Prod.mk (assignment.domains.map Domain.name)
        (assignment.values.map Formula.Value.float) := by
    rw [Assignment.bindings, List.zipWith_map]
  rw [Assignment.valuation_eq_ofPairs, bindings, names, values, List.zipWith_map, List.zipWith_self]
  exact congrArg _ (List.map_id pairs)

namespace Formula

/-- What a prepared formula comes to depends on the values of the names in its text and on nothing
else, and it does not matter where these values are found. For names that are paired with values,
some of them more than once, the list of the pairs, a table filled with them in their order and a
point over domains with these names all make the same of it, since each gives a name the value of
its last pair. -/
theorem value_of_bindings {formula prepared : Formula} (accepted : formula.prepare = .ok prepared) :
    (∃ text tokens, formula.source = some text ∧ tokens? (stripped text) = some tokens ∧
      ∀ first second : Valuation, (∀ name, .name name ∈ tokens → first name = second name) →
        prepared.value first = prepared.value second) ∧
    ∀ pairs : List (String × Value),
      (∀ name, LastBinding pairs name (Valuation.ofPairs pairs name)) ∧
      prepared.value (.ofTable (Valuation.table pairs)) = prepared.value (.ofPairs pairs) ∧
      ∀ assignment : Assignment, assignment.domains.map Domain.name = pairs.map Prod.fst →
        assignment.values.map Value.float = pairs.map Prod.snd →
        prepared.value assignment.valuation = prepared.value (.ofPairs pairs) := by
  obtain ⟨text, source, ⟨term, reads⟩, values⟩ := value_of_prepared accepted
  have value (valuation : Valuation) := (values term reads valuation).1
  constructor
  · refine ⟨text, term.tokens, source, (reads_iff.mp reads).1, fun first second same => ?_⟩
    rw [value, value]
    refine Term.value_congr fun name used => same name ?_
    rw [term.names_eq] at used
    obtain ⟨token, given, own⟩ := List.mem_filterMap.mp used
    exact Token.name?_eq_some.mp own ▸ given
  · intro pairs
    refine ⟨Valuation.lastBinding_ofPairs pairs, by rw [Valuation.ofTable_table], ?_⟩
    intro assignment names numbers
    rw [Assignment.valuation_of_pairs names numbers]

/-- A name that is repeated, with a value before and a value behind that of another name. -/
def repeatedPairs : List (String × Value) := [("x", .float 1), ("y", .float 2), ("x", .float 3)]

/-- A point over domains with these names. -/
def repeatedPoint : Assignment where
  domains := [⟨"x", 1, 1, 1, 1⟩, ⟨"y", 2, 1, 2, 1⟩, ⟨"x", 3, 1, 3, 1⟩]
  values := [1, 2, 3]

/-- The last pair of a name counts, and a name that the formula lacks makes no difference. -/
theorem value_of_bindings_repeated :
    ∃ prepared, (Formula.ofText "x - y").prepare = .ok prepared ∧
      prepared.value (.ofTable (Valuation.table repeatedPairs)) =
        prepared.value (.ofPairs [("z", .float 4), ("x", .float 3), ("y", .float 2)]) ∧
      prepared.value repeatedPoint.valuation = prepared.value (.ofPairs repeatedPairs) := by
  have reads : Reads 3 (stripped "x - y") (.operation .sub (.name "x") (.name "y")) := by
    have text : stripped "x - y" = ['x'] ++ Operator.glyph .sub :: ['y'] := by decide
    rw [text]
    exact .operation (by decide) (.name rfl) (.name rfl)
  obtain ⟨prepared, accepted, -⟩ := reads.prepare
  obtain ⟨⟨text, tokens, source, found, depends⟩, places⟩ := value_of_bindings accepted
  obtain ⟨-, table, point⟩ := places repeatedPairs
  obtain rfl := Option.some.inj source
  obtain rfl := Option.some.inj (found.symm.trans (reads_iff.mp reads).1)
  refine ⟨prepared, accepted, table.trans (depends _ _ fun name given => ?_), point _ rfl rfl⟩
  obtain rfl | rfl : name = "x" ∨ name = "y" := by simpa [Term.tokens] using given
  · rfl
  · rfl

end Formula

end ParamSweep
