import ParamSweep.Number.Decimal
import ParamSweep.Text.Fields

/-!
# Network addresses

An address of the fourth version is four numbers below 256 between points; none of them is
written with a leading zero. One of the sixth version is eight groups of at most four
hexadecimal digits between colons. One double colon may stand for one or more groups of zeros,
and the last two groups may be written like an address of the fourth version.

The text of an address of the sixth version is the shortest one: the first of the longest runs
of two or more zero groups becomes the double colon. Addresses of the fourth version that are
embedded under `::ffff` keep their points.
-/

namespace ParamSweep

/-- A network address, as four octets or as eight groups. -/
inductive Address
  | v4 (octets : List Nat)
  | v6 (groups : List Nat)
  deriving DecidableEq, Repr

namespace Address

/-- The address that stands for every interface. -/
def unspecified : Address := .v4 [0, 0, 0, 0]

/-! ### Reading -/

/-- Reads one number of an address of the fourth version. -/
def octet? (text : List Char) : Option Nat :=
  if text.isEmpty || 3 < text.length || !text.all Char.isDigit then none
  else if text.head? = some '0' ∧ text.length ≠ 1 then none
  else if Number.unitsOf text < 256 then some (Number.unitsOf text)
  else none

/-- Reads an address of the fourth version. -/
def octets? (text : List Char) : Option (List Nat) :=
  match Text.pieces '.' text with
  | [first, second, third, fourth] => [first, second, third, fourth].mapM octet?
  | _ => none

/-- The value of a hexadecimal digit. -/
def hexDigit? (c : Char) : Option Nat :=
  if c.isDigit then some (c.toNat - '0'.toNat)
  else if 'a' ≤ c ∧ c ≤ 'f' then some (c.toNat - 'a'.toNat + 10)
  else if 'A' ≤ c ∧ c ≤ 'F' then some (c.toNat - 'A'.toNat + 10)
  else none

/-- The number that hexadecimal digits denote. -/
def hexNumber? (text : List Char) : Option Nat :=
  text.foldlM (fun n c => (hexDigit? c).map (16 * n + ·)) 0

/-- Reads one group of an address of the sixth version. -/
def group? (text : List Char) : Option Nat :=
  if text.isEmpty || 4 < text.length then none else hexNumber? text

/-- Reads groups; the last piece may be an embedded address if `embedded` allows it. -/
def groupsOf? (embedded : Bool) : List (List Char) → Option (List Nat)
  | [] => some []
  | [last] =>
    match octets? last with
    | some [first, second, third, fourth] =>
      if embedded then some [256 * first + second, 256 * third + fourth] else none
    | _ => (group? last).map ([·])
  | piece :: rest => return (← group? piece) :: (← groupsOf? embedded rest)

/-- Reads the groups of one side of a double colon; a side may be empty. -/
def side? (embedded : Bool) (text : List Char) : Option (List Nat) :=
  if text.isEmpty then some [] else groupsOf? embedded (Text.pieces ':' text)

/-- What stands before and after the first double colon. -/
def cutAtGap? : List Char → Option (List Char × List Char)
  | ':' :: ':' :: rest => some ([], rest)
  | c :: rest => (cutAtGap? rest).map fun (before, behind) => (c :: before, behind)
  | [] => none

/-- Reads an address of the sixth version. -/
def groups? (text : List Char) : Option (List Nat) :=
  match cutAtGap? text with
  | none => (groupsOf? true (Text.pieces ':' text)).filter (·.length = 8)
  | some (before, behind) => do
    let front ← side? false before
    let back ← side? true behind
    if front.length + back.length < 8 then
      some (front ++ List.replicate (8 - front.length - back.length) 0 ++ back)
    else
      none

/-- Reads an address of either version. -/
def ofText? (text : String) : Option Address :=
  match octets? text.toList with
  | some octets => some (.v4 octets)
  | none => (groups? text.toList).map .v6

/-! ### Writing -/

/-- Writes four octets. -/
def octetsText (octets : List Nat) : List Char :=
  List.intercalate ['.'] (octets.map Number.digits)

/-- Writes groups between colons. -/
def groupsText (groups : List Nat) : List Char :=
  List.intercalate [':'] (groups.map (Nat.toDigits 16))

/-- How many zero groups there are at the front. -/
def zeros (groups : List Nat) : Nat := (groups.takeWhile (· = 0)).length

/-- Start and length of the first of the longest runs of zero groups. -/
def longestGap : List Nat → Nat × Nat
  | [] => (0, 0)
  | group :: rest =>
    let here := zeros (group :: rest)
    let (start, length) := longestGap rest
    if length ≤ here then (0, here) else (start + 1, length)

/-- Writes an address of the sixth version. -/
def v6Text : List Nat → List Char
  | [0, 0, 0, 0, 0, 0xffff, high, low] =>
    "::ffff:".toList ++ octetsText [high / 256, high % 256, low / 256, low % 256]
  | groups =>
    let (start, length) := longestGap groups
    if 1 < length then
      groupsText (groups.take start) ++ ':' :: ':' :: groupsText (groups.drop (start + length))
    else
      groupsText groups

/-- The text of an address. -/
def text : Address → String
  | v4 octets => String.ofList (octetsText octets)
  | v6 groups => String.ofList (v6Text groups)

/-- The text of an address with a port. -/
def textWithPort (address : Address) (port : Nat) : String :=
  match address with
  | v4 _ => address.text ++ ":" ++ String.ofList (Number.digits port)
  | v6 _ => "[" ++ address.text ++ "]:" ++ String.ofList (Number.digits port)

end Address

end ParamSweep
