/-!
# Faults and their wording

Everything that can be wrong with a request is a cause below, and one function words it. The
text of a fault is its code in round brackets, a space, and one sentence; clients read both,
so neither may vary. The `other` causes carry a sentence of the caller's own and exist because
a crashed computation explains itself.
-/

namespace ParamSweep

/-- What is wrong with a formula, or with the declaration of a variable. -/
inductive FormulaFault
  | badVariable
  | badSpelling
  | malformed
  | empty
  | unprepared
  | unknownVariable (name : String)
  | other (sentence : String)
  deriving DecidableEq, Repr

/-- What is wrong with the arguments of a request. -/
inductive ArgumentFault
  | sizeMismatch
  | spaceTooLarge
  | unknownStatistic
  | unknownComputation
  | other (sentence : String)
  deriving DecidableEq, Repr

/-- What kept the service from answering a message. -/
inductive ServiceFault
  | lineTooLong
  | notText
  | poolClosed
  | dropped
  | other (sentence : String)
  deriving DecidableEq, Repr

/-- Any cause for which a client gets an error instead of a result. -/
inductive Fault
  | unknownCommand
  | missingFields
  | formula (cause : FormulaFault)
  | badStep
  | badRange
  | argument (cause : ArgumentFault)
  | service (cause : ServiceFault)
  deriving DecidableEq, Repr

namespace FormulaFault

/-- The sentence for a cause. -/
def sentence : FormulaFault → String
  | badVariable => "Invalid Variable Value Function"
  | badSpelling => "Invalid Expression"
  | malformed => "The expression is not in a valid format"
  | empty => "The expression is empty"
  | unprepared => "The expression has not been initialized"
  | unknownVariable name => "Unknown variable " ++ name
  | other sentence => sentence

end FormulaFault

namespace ArgumentFault

/-- The sentence for a cause. -/
def sentence : ArgumentFault → String
  | sizeMismatch => "The range of the variables must have the same size"
  | spaceTooLarge => "The value space is too large"
  | unknownStatistic => "Invalid stat kind"
  | unknownComputation => "Unknown computation kind"
  | other sentence => sentence

end ArgumentFault

namespace ServiceFault

/-- The sentence for a cause. -/
def sentence : ServiceFault → String
  | lineTooLong => "Message exceeds the maximum line length"
  | notText => "Message is not valid UTF-8"
  | poolClosed => "Worker pool is shut down"
  | dropped => "The request was dropped before completing"
  | other sentence => sentence

end ServiceFault

namespace Fault

/-- The word that classes a fault. -/
def code : Fault → String
  | unknownCommand => "IllegalCommand"
  | missingFields => "NotEnoughArguments"
  | formula _ => "InvalidExpression"
  | badStep => "InvalidStep"
  | badRange => "InvalidRange"
  | argument _ => "IllegalArgument"
  | service _ => "Exception"

/-- The sentence that explains a fault. -/
def sentence : Fault → String
  | unknownCommand => "Unknown request type"
  | missingFields => "Invalid message format"
  | formula cause => cause.sentence
  | badStep => "Invalid Step"
  | badRange => "Invalid Range"
  | argument cause => cause.sentence
  | service cause => cause.sentence

/-- The text that a client gets. -/
def message (fault : Fault) : String := "(" ++ fault.code ++ ") " ++ fault.sentence

end Fault

end ParamSweep
