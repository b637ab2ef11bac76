/-!
# Blank characters

The characters with the property White_Space: the ASCII controls from tab to carriage return,
the space, and the wider blanks and separators outside ASCII. Blanks carry no meaning inside a
formula and around a number in the environment.
-/

namespace ParamSweep.Text

/-- First and last code point of every range of blanks. -/
def blankRanges : List (Nat × Nat) :=
  [(0x09, 0x0D), (0x20, 0x20), (0x85, 0x85), (0xA0, 0xA0), (0x1680, 0x1680),
    (0x2000, 0x200A), (0x2028, 0x2029), (0x202F, 0x202F), (0x205F, 0x205F),
    (0x3000, 0x3000)]

/-- Whether a character is blank. -/
def isBlank (c : Char) : Bool :=
  blankRanges.any fun (first, last) => first ≤ c.toNat && c.toNat ≤ last

/-- Drops every blank. -/
def withoutBlanks (text : List Char) : List Char := text.filter (!isBlank ·)

/-- Drops the blanks at both ends. -/
def trimmed (text : List Char) : List Char :=
  ((text.dropWhile isBlank).reverse.dropWhile isBlank).reverse

end ParamSweep.Text
