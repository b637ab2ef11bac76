import ParamSweep.Duration
import ParamSweep.Settings.Document
import ParamSweep.Text.Blank

/-!
# Settings

What a service needs to know before it starts: where to listen, how patient to be, how many
workers to have and how long a line may be. Settings are valid if there is a worker, some
patience and room for a line; of several faults the first in this order is reported.

Settings can be read from a document: an object whose members are named below, or an array of
their values in that order. What is missing keeps its default. Members of other names are
ignored, but a member that is given twice is refused. A duration is an object of exactly two
members, or an array of exactly two items.
-/

namespace ParamSweep

/-- What a service needs to know before it starts. -/
structure Settings where
  address : Address := .unspecified
  port : Nat := 9000
  idleTimeout : Duration := .ofParts 300 0
  workers : Nat := 1
  lineLimit : Nat := 64 * 1024
  deriving DecidableEq, Repr

/-- Why settings are not valid. -/
inductive SettingsFault
  | noWorker
  | noPatience
  | noRoom
  deriving DecidableEq, Repr

/-- The text of a fault in the settings. -/
def SettingsFault.message (fault : SettingsFault) : String :=
  "Configuration error: " ++
    match fault with
    | noWorker => "worker_threads must be at least 1"
    | noPatience => "idle_timeout must be greater than zero"
    | noRoom => "max_line_length must be greater than zero"

namespace Settings

/-- The address and port to listen on. -/
def endpoint (settings : Settings) : String := settings.address.textWithPort settings.port

/-- Checks settings. -/
def validate (settings : Settings) : Except SettingsFault Unit :=
  if settings.workers = 0 then .error .noWorker
  else if settings.idleTimeout = .zero then .error .noPatience
  else if settings.lineLimit = 0 then .error .noRoom
  else .ok ()

/-! ### Reading -/

/-- Numbers of 64 bits stay below this limit. -/
def wordLimit : Nat := Number.powerOfTwo 64

/-- Ports are numbers below this limit. -/
def portLimit : Nat := Number.powerOfTwo 16

/-- Reads a number below a limit: digits, with an optional plus sign. -/
def numberBelow? (limit : Nat) (text : List Char) : Option Nat :=
  let digits :=
    match text with
    | '+' :: rest => rest
    | rest => rest
  if !digits.isEmpty ∧ digits.all Char.isDigit ∧ Number.unitsOf digits < limit then
    some (Number.unitsOf digits)
  else
    none

/-- Reads a port. -/
def portOfText? (text : String) : Option Nat := numberBelow? portLimit text.toList

/-- Reads a number of workers between blanks. Zero and numbers of more than 64 bits are
refused. -/
def workersOfText? (text : String) : Option Nat :=
  (numberBelow? wordLimit (Text.trimmed text.toList)).filter (0 < ·)

/-- The number of workers that a text asks for. Where there is none, or none that can be read,
there are as many as there are processors, and at least one. -/
def workersFrom (asked : Option String) (processors : Nat) : Nat :=
  (asked.bind workersOfText?).getD (max 1 processors)

/-- The duration of some seconds and nanoseconds, if it can be stored. -/
def durationOf? (seconds nanoseconds : Document) : Option Duration := do
  let seconds ← seconds.natural? wordLimit
  let nanoseconds ← nanoseconds.natural? (Number.powerOfTwo 32)
  let duration := Duration.ofParts seconds nanoseconds
  if duration.nanoseconds < Duration.limit then some duration else none

/-- The values of all members of one name. -/
def valuesOf (members : List (Option String × Document)) (name : String) : List Document :=
  (members.filter (·.1 == some name)).map (·.2)

/-- Reads a duration. -/
def duration? : Document → Option Duration
  | .array [seconds, nanoseconds] => durationOf? seconds nanoseconds
  | .object [first, second] =>
    match valuesOf [first, second] "secs", valuesOf [first, second] "nanos" with
    | [seconds], [nanoseconds] => durationOf? seconds nanoseconds
    | _, _ => none
  | _ => none

/-- The names of the settings, in the order in which an array gives them. -/
def names : List String :=
  ["bind_address", "port", "idle_timeout", "worker_threads", "max_line_length"]

/-- Reads the value of one setting. -/
def withSetting? (settings : Settings) (name : String) (value : Document) : Option Settings :=
  match name with
  | "bind_address" => do
    let address ← value.text?.bind Address.ofText?
    return { settings with address }
  | "port" => (value.natural? portLimit).map ({ settings with port := · })
  | "idle_timeout" => (duration? value).map ({ settings with idleTimeout := · })
  | "worker_threads" => (value.natural? wordLimit).map ({ settings with workers := · })
  | "max_line_length" => (value.natural? wordLimit).map ({ settings with lineLimit := · })
  | _ => some settings

/-- Reads one setting from the members of an object, if they give it. -/
def withMember? (members : List (Option String × Document)) (settings : Settings)
    (name : String) : Option Settings :=
  match valuesOf members name with
  | [] => some settings
  | [value] => settings.withSetting? name value
  | _ => none

/-- Reads settings from a document; what is missing is taken from `settings`. -/
def withDocument? (settings : Settings) : Document → Option Settings
  | .array items =>
    if items.length ≤ names.length then
      (names.zip items).foldlM (fun settings (name, value) => settings.withSetting? name value)
        settings
    else
      none
  | .object members =>
    if members.all (·.1.isSome) then names.foldlM (withMember? members) settings else none
  | _ => none

/-- Reads settings from a text; what is missing is taken from `settings`. -/
def withText? (settings : Settings) (text : String) : Option Settings :=
  (Document.ofText? text).bind settings.withDocument?

end Settings

end ParamSweep
