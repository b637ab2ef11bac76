import ParamSweep.Main
import ParamSweep.Service.Replay
import ParamSweep.Proofs.Formula.Lexing
import ParamSweep.Proofs.Formula.Bracketing
import ParamSweep.Proofs.Formula.Growth
import ParamSweep.Proofs.Formula.Alternation
import ParamSweep.Proofs.Formula.Insertion
import ParamSweep.Proofs.Formula.Walking
import ParamSweep.Proofs.Formula.Acceptance
import ParamSweep.Proofs.Formula.Grammar
import ParamSweep.Proofs.Formula.Recursion
import ParamSweep.Proofs.Formula.Writing
import ParamSweep.Proofs.Formula.Forest
import ParamSweep.Proofs.Formula.Supply
import ParamSweep.Proofs.Formula.Levels
import ParamSweep.Proofs.Formula.Enclosure
import ParamSweep.Proofs.Formula.Matching
import ParamSweep.Proofs.Formula.Positions
import ParamSweep.Proofs.Formula.Bounds
import ParamSweep.Proofs.Line.Framing
import ParamSweep.Proofs.Line.Certainty
import ParamSweep.Proofs.Line.Patience
import ParamSweep.Proofs.Service.Custody
import ParamSweep.Proofs.Service.History
import ParamSweep.Proofs.Service.Order
import ParamSweep.Proofs.Service.Progress
import ParamSweep.Proofs.Service.Replies
import ParamSweep.Proofs.Space.Enumeration
import ParamSweep.Proofs.Sweep.Denotation
import ParamSweep.Proofs.Service.Protocol
import ParamSweep.Proofs.Service.Sequential
import ParamSweep.Proofs.Service.Turns
import ParamSweep.Proofs.Service.Refinement
import ParamSweep.Proofs.Service.Isolation
import ParamSweep.Proofs.Service.Counting
import ParamSweep.Proofs.Domain.Declaration
import ParamSweep.Proofs.Request.Spelling
import ParamSweep.Proofs.Request.Grammar
import ParamSweep.Proofs.Request.Commands
import ParamSweep.Proofs.Request.Evaluable
import ParamSweep.Proofs.Request.Trailing
import ParamSweep.Proofs.Number.Nearest
import ParamSweep.Proofs.Number.Pattern
import ParamSweep.Proofs.Number.Rounding
import ParamSweep.Proofs.Number.Arithmetic
import ParamSweep.Proofs.Number.Quotient
import ParamSweep.Proofs.Number.Reading
import ParamSweep.Proofs.Formula.Overflow
import ParamSweep.Proofs.Domain.Count
import ParamSweep.Proofs.Domain.Usable
import ParamSweep.Proofs.Service.Stopping
import ParamSweep.Proofs.Service.Closing
import ParamSweep.Proofs.Service.Severing
import ParamSweep.Proofs.Service.Aftermath
import ParamSweep.Proofs.Aggregate.Extremes
import ParamSweep.Proofs.Space.Reordering
import ParamSweep.Proofs.Sweep.Reordering
import ParamSweep.Proofs.Number.Fixed
import ParamSweep.Proofs.Reply.Wording
import ParamSweep.Proofs.Reply.Framing
import ParamSweep.Proofs.Reply.Sentences
import ParamSweep.Proofs.Service.Lines
import ParamSweep.Proofs.Service.Idling
import ParamSweep.Proofs.Timings.Average
import ParamSweep.Proofs.Timings.Summary
import ParamSweep.Proofs.Number.Shortest
import ParamSweep.Proofs.Domain.Text
import ParamSweep.Proofs.Formula.Cutting
import ParamSweep.Proofs.Sweep.Bindings
import ParamSweep.Proofs.Formula.Preorder
import ParamSweep.Proofs.Text.Items
import ParamSweep.Proofs.Settings.Address
import ParamSweep.Proofs.Settings.Document
import ParamSweep.Proofs.Settings.Ranges
import ParamSweep.Proofs.Settings.Members
