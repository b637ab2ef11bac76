/-!
# What a connection brings in

A line of bytes becomes one inbound item: its text, or a mark that it was too long or that its
bytes are no text. Bytes are text if they are well-formed UTF-8.
-/

namespace ParamSweep

/-- One unit of what a connection sends. -/
inductive Inbound
  | line (text : String)
  | overlong
  | notText
  deriving DecidableEq, Repr

namespace Line

/-- The byte that ends a line. -/
def lineFeed : UInt8 := 10

/-- The byte that may stand before the end of a line and is no part of it. -/
def carriageReturn : UInt8 := 13

/-- A line without one carriage return at its end. -/
def withoutReturn (bytes : List UInt8) : List UInt8 :=
  if bytes.getLast? = some carriageReturn then bytes.dropLast else bytes

end Line

/-- The item for the bytes of a line, its end left out. -/
def Inbound.ofBytes (bytes : List UInt8) : Inbound :=
  match String.fromUTF8? ⟨(Line.withoutReturn bytes).toArray⟩ with
  | some text => .line text
  | none => .notText

end ParamSweep
