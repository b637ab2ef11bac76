import ParamSweep.Number.Rendering

/-!
# Answers

The answer to a request is a count, written as a whole number, or a decimal, written with six
places. The kind of answer follows from the request and never from the value.
-/

namespace ParamSweep

/-- The one result of a successful request. -/
inductive Answer
  | whole (count : Nat)
  | decimal (value : Float)
  deriving Repr

namespace Answer

/-- Places after the point of a decimal answer. -/
def places : Nat := 6

/-- The written form of an answer. -/
def text : Answer → String
  | whole count => String.ofList (Number.digits count)
  | decimal value => Number.fixed places value

end Answer

end ParamSweep
