import ParamSweep.Request.Spelling
import ParamSweep.Sweep

/-!
# Messages that ask for a sweep

The fields of such a message stand between semicolons: the command, which joins the words for
an aggregate and a kind of space by an underscore; the declarations of the variables, between
commas; and the formulas, one a field. Empty fields and declarations at the end are ignored.

The checks run from left to right and the first that fails names the fault: the command, the
presence of declarations, every declaration in order, at least one declaration, and then,
unless the request only counts, the presence of formulas and the spelling of each.
-/

namespace ParamSweep.Sweep

/-- Cuts a text at its first underscore. -/
def cutCommand? (command : List Char) : Option (String × String) :=
  match command.dropWhile (· ≠ '_') with
  | [] => none
  | _ :: behind => some (String.ofList (command.takeWhile (· ≠ '_')), String.ofList behind)

/-- The aggregate and the kind of space that a command joins. -/
def ofCommand? (command : List Char) : Option (Aggregate × SpaceKind) := do
  let (aggregate, kind) ← cutCommand? command
  return (← Aggregate.ofWord? aggregate, ← SpaceKind.ofWord? kind)

/-- Reads the command of a message. -/
def readCommand (command : List Char) : Except Fault (Aggregate × SpaceKind) :=
  match ofCommand? command with
  | some kinds => .ok kinds
  | none => .error (.argument .unknownComputation)

/-- Reads the declarations of a message; there must be one. -/
def readDomains (field : List Char) : Except Fault (List Domain) := do
  match ← (Text.fields ',' field).mapM Domain.read with
  | [] => .error (.formula .badVariable)
  | domains => .ok domains

/-- Reads one formula, which must be spelled from the declared names. -/
def readFormula (names : List (List Char)) (field : List Char) : Except Fault String :=
  if Request.isSpelled names field then .ok (String.ofList field)
  else .error (.formula .badSpelling)

/-- Reads the formulas of a message; there must be one. -/
def readFormulas (domains : List Domain) (fields : List (List Char)) :
    Except Fault (List String) :=
  if fields.isEmpty then .error .missingFields
  else fields.mapM (readFormula (domains.map (·.name.toList)))

/-- Reads a message that asks for a sweep. -/
def read (message : String) : Except Fault Sweep := do
  let fields := Text.fields ';' message.toList
  let (aggregate, kind) ← readCommand (fields.headD [])
  match fields.tail with
  | [] => .error .missingFields
  | declarations :: rest => do
    let domains ← readDomains declarations
    let formulas ← if aggregate = .count then pure [] else readFormulas domains rest
    return { aggregate, kind, domains, formulas }

end ParamSweep.Sweep
