/-!
# Separated fields

A text is cut at every separator, so it has one piece more than it has separators. Fields are
the pieces without the empty ones at the end: separators at the end of a text add nothing, and
a text of separators alone has no field.
-/

namespace ParamSweep.Text

/-- Puts a character in front of the first piece. -/
def extendFirst (c : Char) : List (List Char) → List (List Char)
  | [] => [[c]]
  | piece :: rest => (c :: piece) :: rest

/-- Cuts a text at every separator. -/
def pieces (separator : Char) (text : List Char) : List (List Char) :=
  text.foldr (fun c rest => if c = separator then [] :: rest else extendFirst c rest) [[]]

/-- Drops the empty pieces at the end. -/
def dropTrailingEmpty (pieces : List (List Char)) : List (List Char) :=
  pieces.foldr (fun piece rest => if piece.isEmpty && rest.isEmpty then [] else piece :: rest) []

/-- The fields of a text. -/
def fields (separator : Char) (text : List Char) : List (List Char) :=
  dropTrailingEmpty (pieces separator text)

end ParamSweep.Text
