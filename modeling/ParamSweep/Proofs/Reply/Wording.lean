import ParamSweep.Dispatch
import ParamSweep.Proofs.Number.Fixed
import ParamSweep.Proofs.Request.Commands
import ParamSweep.Proofs.Sweep.Denotation

/-!
# What replies are worded with

A reply is one line with semicolons between its fields, so a field may hold neither a semicolon nor
the end of a line. Numbers are written with digits and points, and most sentences are fixed. Only
one of them holds something that a client has sent: the fault that a variable is unknown names the
variable. But a formula reads as a term before any of its variables is looked up, and then all it
names are names: small letters and digits.

The sentence of a crash is not worded here. It is the only one that has to be trusted.
-/

namespace ParamSweep

namespace Text

/-- A text that ends neither a line nor a field of a reply. -/
def Plain (text : List Char) : Prop := ∀ c ∈ text, c ≠ '\n' ∧ c ≠ '\r' ∧ c ≠ ';'

instance (text : List Char) : Decidable (Plain text) :=
  List.decidableBAll _ text

/-- A text is plain if its two parts are. -/
@[simp] theorem plain_append {front rest : List Char} :
    Plain (front ++ rest) ↔ Plain front ∧ Plain rest := List.forall_mem_append

/-- A text is plain if its first character and the others are. -/
@[simp] theorem plain_cons {c : Char} {text : List Char} :
    Plain (c :: text) ↔ (c ≠ '\n' ∧ c ≠ '\r' ∧ c ≠ ';') ∧ Plain text := List.forall_mem_cons

/-- A plain text holds nothing that ends or divides a line. -/
theorem Plain.not_mem {text : List Char} (plain : Plain text) :
    '\n' ∉ text ∧ '\r' ∉ text ∧ ';' ∉ text :=
  ⟨fun member => (plain _ member).1 rfl, fun member => (plain _ member).2.1 rfl,
    fun member => (plain _ member).2.2 rfl⟩

end Text

open Text (Plain)

/-! ### Numbers and names -/

/-- The characters that numbers are written with, and infinities and what is no number. -/
def Number.isGlyph (c : Char) : Bool :=
  c.isDigit || ['-', '.', 'i', 'n', 'f', 'N', 'a'].contains c

/-- Numbers are written in plain text. -/
theorem Number.plain_of_isGlyph {text : List Char} (glyphs : ∀ c ∈ text, Number.isGlyph c = true) :
    Plain text := by
  intro c member
  have glyph := glyphs c member
  refine ⟨?_, ?_, ?_⟩ <;> rintro rfl <;> exact absurd glyph (by decide)

/-- Digits belong to the text of a number. -/
theorem Formula.DigitRun.isGlyph {text : List Char} (run : Formula.DigitRun text) :
    ∀ c ∈ text, Number.isGlyph c = true := by
  intro c member
  rw [Number.isGlyph, run.2 c member, Bool.true_or]

/-- So does a point between digits. -/
theorem Number.HasPlaces.isGlyph {places : Nat} {text : List Char}
    (form : Number.HasPlaces places text) : ∀ c ∈ text, Number.isGlyph c = true := by
  obtain ⟨before, behind, -⟩ := form
  refine List.forall_mem_append.mpr ⟨before.isGlyph, List.forall_mem_cons.mpr ⟨?_, behind.isGlyph⟩⟩
  decide

/-- With its sign, or as a special value, a number in places is written with nothing else. -/
theorem Number.Fixed.isGlyph {places : Nat} {text : List Char}
    (form : Number.Fixed places text) : ∀ c ∈ text, Number.isGlyph c = true := by
  cases form with
  | plain unsigned => exact unsigned.isGlyph
  | minus unsigned => exact List.forall_mem_cons.mpr ⟨by decide, unsigned.isGlyph⟩
  | infinite => exact List.all_eq_true.mp (by decide)
  | minusInfinite => exact List.all_eq_true.mp (by decide)
  | notANumber => exact List.all_eq_true.mp (by decide)

/-- An answer is written as a number is. -/
theorem Answer.isGlyph_text (answer : Answer) :
    ∀ c ∈ answer.text.toList, Number.isGlyph c = true := by
  cases answer with
  | whole count =>
    rw [text, String.toList_ofList]
    exact (Number.digitRun_digits count).isGlyph
  | decimal value => exact (Number.fixed_form value (by decide)).isGlyph

/-- Names are written with small letters and digits. -/
theorem Formula.isLower_or_isDigit {name : List Char} (spelled : Formula.isName name = true) :
    ∀ c ∈ name, c.isLower = true ∨ c.isDigit = true :=
  Formula.IsName.glyphs ((Formula.isName_iff name).mp spelled)

/-- Names are plain text. -/
theorem Formula.plain_name {name : List Char} (spelled : Formula.isName name = true) :
    Plain name := by
  intro c member
  have glyph := Formula.isLower_or_isDigit spelled c member
  refine ⟨?_, ?_, ?_⟩ <;> rintro rfl <;> exact absurd glyph (by decide)

/-- All that a formula names is spelled as a name. -/
theorem Formula.Reads.isName_of_mem {bound : Nat} {text : List Char} {term : Formula.Term}
    (reads : Formula.Reads bound text term) :
    ∀ name ∈ term.names, Formula.isName name.toList = true := by
  induction reads with
  | number literal => exact nofun
  | name spelled =>
    intro name member
    obtain rfl := List.mem_singleton.mp member
    rwa [String.toList_ofList]
  | group inside inductionHypothesis => exact inductionHypothesis
  | operation allowed onLeft onRight leftHypothesis rightHypothesis =>
    intro name member
    obtain inLeft | inRight := List.mem_append.mp member
    · exact leftHypothesis name inLeft
    · exact rightHypothesis name inRight

/-! ### Faults -/

namespace Fault

/-- A fault whose sentence ends neither a line nor a field. -/
def IsPlain (fault : Fault) : Prop := Plain fault.sentence.toList

instance (fault : Fault) : Decidable fault.IsPlain :=
  inferInstanceAs (Decidable (Plain fault.sentence.toList))

/-- The code of every fault is plain text. -/
theorem plain_code (fault : Fault) : Plain fault.code.toList := by
  cases fault <;> rw [code] <;> decide

/-- The message of a fault is its code in brackets, a blank and its sentence. -/
theorem toList_message (fault : Fault) :
    fault.message.toList = '(' :: (fault.code.toList ++ ')' :: ' ' :: fault.sentence.toList) := by
  simp [message]

/-- A fault whose sentence is plain has a plain message. -/
theorem IsPlain.message {fault : Fault} (plain : fault.IsPlain) : Plain fault.message.toList := by
  have sentence : Plain fault.sentence.toList := plain
  simp [toList_message, fault.plain_code, sentence]

end Fault

namespace Fault

/-- The faults of requests with a known command, and of the jobs that come of them. -/
inductive Arises : Fault → Prop
  | missingFields : Arises .missingFields
  | badVariable : Arises (.formula .badVariable)
  | badSpelling : Arises (.formula .badSpelling)
  | badStep : Arises .badStep
  | badRange : Arises .badRange
  | spaceTooLarge : Arises (.argument .spaceTooLarge)
  | sizeMismatch : Arises (.argument .sizeMismatch)
  | empty : Arises (.formula .empty)
  | malformed : Arises (.formula .malformed)
  | unknownVariable {name : String} (spelled : Formula.isName name.toList = true) :
      Arises (.formula (.unknownVariable name))
  | sumOverflow : Arises (.service (.other Crash.sumOverflow.sentence))

/-- What is wrong with a request is worded in advance, but for the name of a variable. -/
theorem Arises.isPlain {fault : Fault} (arises : fault.Arises) : fault.IsPlain := by
  cases arises with
  | @unknownVariable name spelled =>
    have opening : Plain "Unknown variable ".toList := by decide
    have whole : Plain ("Unknown variable " ++ name).toList := by
      rw [String.toList_append]
      exact Text.plain_append.mpr ⟨opening, Formula.plain_name spelled⟩
    exact whole
  | _ => decide

end Fault

/-- A formula cannot be prepared for one of two faults. -/
theorem Formula.arises_of_prepare {formula : Formula} {fault : FormulaFault}
    (refused : formula.prepare = .error fault) : (Fault.formula fault).Arises := by
  rw [prepare_eq] at refused
  split at refused
  next =>
    cases refused
    exact .empty
  next text source =>
    split at refused
    next =>
      cases refused
      exact .empty
    next =>
      split at refused
      next => cases refused
      next =>
        cases refused
        exact .malformed

/-- A space is refused for a fault that is worded in advance. -/
theorem Space.arises_of_make {domains : List Domain} {kind : SpaceKind} {fault : Fault}
    (refused : make domains kind = .error fault) : fault.Arises := by
  unfold make at refused
  split at refused
  next =>
    split at refused
    next => cases refused
    next =>
      cases refused
      exact .spaceTooLarge
  next =>
    split at refused
    next => cases refused
    next =>
      cases refused
      exact .sizeMismatch

/-- So is a declaration. -/
theorem Domain.Declares.arises {text : List Char} {fault : Fault}
    (declares : Domain.Declares text (.error fault)) : fault.Arises := by
  cases declares with
  | malformed unlike => exact .badVariable
  | badStep spells flat => exact .badStep
  | badRange spells steep reversed => exact .badRange
  | tooLarge spells steep ordered large => exact .spaceTooLarge

namespace Sweep

/-- And so is a message, unless it asks for a computation that there is not. -/
theorem Asks.arises {message : String} {fault : Fault} (asks : Asks message (.error fault)) :
    fault = .argument .unknownComputation ∨ fault.Arises := by
  cases asks with
  | unknown cut unnamed => exact .inl rfl
  | undeclared cut named => exact .inr .missingFields
  | badDeclaration cut named declared good first => exact .inr first.arises
  | unlisted cut named declared => exact .inr .badVariable
  | noFormula cut named lists wanted => exact .inr .missingFields
  | badFormula cut named lists wanted given misspelled => exact .inr .badSpelling

/-- What is wrong with formulas has arisen when they were prepared, or is a name they use. -/
theorem Denotes.arises {space : Space} {sources : List String} {fault : FormulaFault}
    (denotes : Denotes space sources (.error fault)) : (Fault.formula fault).Arises := by
  generalize result : Except.error (α := List Formula.Value) fault = whole at denotes
  induction denotes with
  | nothing => cases result
  | unprepared refused =>
    cases result
    exact Formula.arises_of_prepare refused
  | @undeclared source name sources before behind term points reads names unknown known =>
    cases result
    exact .unknownVariable (reads.isName_of_mem name (names ▸ by simp))
  | @evaluated source sources term values others reads declared each rest inductionHypothesis =>
    cases others with
    | error other =>
      cases result
      exact inductionHypothesis rfl
    | ok later => cases result

/-- A sweep fails for few faults, whatever its formulas are. -/
theorem arises_of_run {sweep : Sweep} {fault : Fault} (failed : sweep.run = .error fault) :
    fault.Arises := by
  cases accepted : Space.make sweep.domains sweep.kind with
  | error other =>
    obtain rfl := Except.error.inj (failed.symm.trans (sweep.run_of_refused accepted))
    exact Space.arises_of_make accepted
  | ok space =>
    by_cases counts : sweep.aggregate = .count
    · cases failed.symm.trans (sweep.run_of_count accepted counts)
    · obtain ⟨result, denotes⟩ := exists_denotes space sweep.formulas
      rw [sweep.run_of_aggregate accepted counts denotes] at failed
      cases result with
      | error other =>
        cases failed
        exact denotes.arises
      | ok values => cases failed

end Sweep

/-! ### Lines -/

/-- What is done with a line, by the table that its command stands in. Where a table has the command
the reader of that kind knows it, so it can only object to what stands behind. -/
inductive Dispatch.Makes (line : String) : Dispatch → Prop
  | quit (listed : Request.commandOf line ∈ RequestKind.quitCommands) :
      Makes line (.quit .acknowledged)
  | statistic {statistic : Statistic}
      (listed : Request.commandOf line ∈ RequestKind.statisticCommands)
      (read : Statistic.read (Request.commandOf line) = .ok statistic) :
      Makes line (.submit (.statistic statistic))
  | sweep {sweep : Sweep} (listed : Request.commandOf line ∈ RequestKind.sweepCommands)
      (read : Sweep.read line = .ok sweep) : Makes line (.submit (.sweep sweep))
  | refused {fault : Fault} (listed : Request.commandOf line ∈ RequestKind.sweepCommands)
      (read : Sweep.read line = .error fault) (arises : fault.Arises) :
      Makes line (.reply (.ofFault fault))
  | unknown (unlisted : RequestKind.ofCommand (Request.commandOf line) = .unknown) :
      Makes line (.reply (.ofFault .unknownCommand))

/-- What is done with a line is one of the ways in which a line can be dealt with. -/
theorem Dispatch.makes_ofLine (line : String) : Makes line (ofLine line) := by
  have known : RequestKind.ofCommand (Request.commandOf line) = (Request.ofMessage line).kind := rfl
  have listed := RequestKind.ofCommand_eq_iff.mp known
  generalize own : (Request.ofMessage line).kind = kind at known listed
  cases listed with
  | quit listed => simpa only [ofLine, own] using Makes.quit listed
  | statistic listed =>
    obtain ⟨statistic, read⟩ := Statistic.exists_read_iff.mpr listed
    have accepted : (Request.ofMessage line).statistic = .ok statistic := by
      rw [Request.statistic, own]
      exact read
    simpa only [ofLine, own, accepted] using Makes.statistic listed read
  | sweep listed =>
    have same : (Request.ofMessage line).sweep = Sweep.read line := by
      rw [Request.sweep, own]
      rfl
    simp only [ofLine, own, same]
    cases read : Sweep.read line with
    | ok sweep => exact .sweep listed read
    | error fault =>
      obtain rfl | arises := (read ▸ Sweep.asks_read line).arises
      · exact absurd listed (Sweep.read_eq_unknownComputation_iff.mp read)
      · exact .refused listed read arises
  | unknown noQuit noStatistic noSweep => simpa only [ofLine, own] using Makes.unknown known

/-! ### Replies -/

/-- What is replied at once is a fault. -/
theorem Dispatch.exists_fault_of_reply {item : Inbound} {reply : Reply}
    (known : ofInbound item = .reply reply) :
    ∃ fault : Fault, fault.IsPlain ∧ reply = .ofFault fault := by
  cases item with
  | line text =>
    have makes := makes_ofLine text
    rw [show ofLine text = .reply reply from known] at makes
    cases makes with
    | refused listed read arises => exact ⟨_, arises.isPlain, rfl⟩
    | unknown unlisted => exact ⟨.unknownCommand, by decide, rfl⟩
  | overlong =>
    cases known
    exact ⟨.service .lineTooLong, by decide, rfl⟩
  | notText =>
    cases known
    exact ⟨.service .notText, by decide, rfl⟩

/-- A job that runs succeeds with the time it took, or fails. -/
theorem Job.reply_run_cases (job : Job) (elapsed : Duration) (timings : Timings) :
    (∃ answer, (job.run elapsed timings).1.reply = .success elapsed answer) ∨
      ∃ fault : Fault, fault.Arises ∧ (job.run elapsed timings).1.reply = .ofFault fault := by
  cases job with
  | sweep wanted =>
    cases result : wanted.run with
    | ok answer => exact .inl ⟨answer, by simp only [run, endSweep, result, Outcome.reply]⟩
    | error fault =>
      exact .inr ⟨fault, Sweep.arises_of_run result,
        by simp only [run, endSweep, result, Outcome.reply]⟩
  | statistic wanted =>
    cases summary : timings.summary? with
    | none =>
      refine .inr ⟨_, .sumOverflow, ?_⟩
      simp only [run, endStatistic, Timings.reply?, summary, Option.map_none, Outcome.reply]
    | some figures =>
      refine .inl ⟨figures.answer wanted, ?_⟩
      simp only [run, endStatistic, Timings.reply?, summary, Option.map_some, Outcome.reply]

end ParamSweep
