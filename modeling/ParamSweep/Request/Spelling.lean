/-!
# Spelling of formulas in a request

Before a formula is looked at more closely, its text must be spelled from the names that the
request declares and the characters of numbers, operators and brackets. Names may overlap and
one may begin with another, so the check keeps a table with an entry for every length up to that
of the text, in bytes: whether the beginning of that length can be spelled. It passes over the
text once. From a beginning that can be spelled, every name or character that stands next leads
to a longer one, and its length is marked; a length past the end of the table cannot be marked.
-/

namespace ParamSweep.Request

/-- The single characters that a formula may be spelled with. -/
def isFormulaGlyph (c : Char) : Bool := c.isDigit || ".+-*/^()".toList.contains c

/-- The bytes of a text. -/
def bytesOf (text : List Char) : List UInt8 := text.flatMap String.utf8EncodeChar

/-- For every length, whether the beginning of a text with that length can be spelled. -/
abbrev Reach := Array Bool

namespace Reach

/-- Of a text with some length, only the empty beginning is known to be spelled. -/
def start (length : Nat) : Reach := #[true] ++ Array.replicate length false

/-- Marks a length; there must be an entry for it. -/
def mark? (reach : Reach) (length : Nat) : Option Reach :=
  if inside : length < reach.size then some (reach.set length true) else none

/-- Marks the length to which a single character leads, if one stands next. -/
def followGlyph? (length : Nat) (rest : List UInt8) (reach : Reach) : Option Reach :=
  if rest.head?.any fun byte => isFormulaGlyph (.ofUInt8 byte) then reach.mark? (length + 1)
  else some reach

/-- Marks the length to which a name leads, if the name stands next. -/
def followName? (length : Nat) (rest : List UInt8) (reach : Reach) (name : List UInt8) :
    Option Reach :=
  if name.isPrefixOf rest then reach.mark? (length + name.length) else some reach

/-- Marks the lengths to which a character and the names lead from the beginning of a given
length, where `rest` stands next. -/
def extend? (names : List (List UInt8)) (length : Nat) (rest : List UInt8) (reach : Reach) :
    Option Reach := do
  let glyphs ← reach.followGlyph? length rest
  names.foldlM (followName? length rest) glyphs

/-- Looks a length up: nothing leads on from a beginning that cannot be spelled. -/
def visit? (names : List (List UInt8)) (length : Nat) (rest : List UInt8) (reach : Reach) :
    Option Reach := do
  let spelled ← reach[length]?
  if spelled then reach.extend? names length rest else some reach

/-- Passes over the rest of a text behind the beginning of a given length. -/
def pass? (names : List (List UInt8)) : (length : Nat) → (rest : List UInt8) → Reach → Option Reach
  | _, [], reach => some reach
  | length, byte :: rest, reach => do
    let visited ← reach.visit? names length (byte :: rest)
    pass? names (length + 1) rest visited

/-- The table of a text, if every mark has found its entry. -/
def ofText? (names : List (List Char)) (text : List Char) : Option Reach :=
  let bytes := bytesOf text
  pass? (names.map bytesOf) 0 bytes (start bytes.length)

end Reach

/-- Whether a text is spelled from names and formula characters. -/
def isSpelled (names : List (List Char)) (text : List Char) : Bool :=
  ((Reach.ofText? names text).bind Array.back?).getD false

end ParamSweep.Request
