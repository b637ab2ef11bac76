import ParamSweep.Proofs.Reply.Framing

/-!
# Sentences that no reply holds

Three sentences are there for cases that do not occur: a sweep or a statistic whose command its
reader does not know, and a formula that is evaluated before it was prepared. That they do not
occur is seen from outside: whatever line a client sends and whatever was recorded before, neither
the reply at once nor the reply of a job has one of them anywhere in its text. The code of an
unknown command is different: it stands in the reply exactly if no table has the command.

A reply is searched as the text that it is, and the name of an unknown variable is a part of that
text which clients choose. It holds neither a blank nor a capital, so no sentence can reach into it.
-/

namespace ParamSweep

/-- A part of a joined text that goes on with a character which the second text lacks lies in the
first. -/
theorem Text.infix_of_infix_append {front rest left right : List Char} {c : Char}
    (part : front ++ c :: rest <:+: left ++ right) (apart : c ∉ right) :
    front ++ [c] <:+: left := by
  obtain ⟨before, behind, whole⟩ := part
  have parts : left ++ right = (before ++ front) ++ c :: (rest ++ behind) := by
    simpa using whole.symm
  obtain ⟨between, -, onTheRight⟩ | ⟨between, rfl, -⟩ := Formula.append_eq_append_cons parts
  · exact absurd (onTheRight ▸ List.mem_append_right _ List.mem_cons_self) apart
  · exact ⟨before, between, by simp⟩

namespace Fault

/-- The faults of which no client hears. -/
def unheard : List Fault :=
  [.argument .unknownComputation, .argument .unknownStatistic, .formula .unprepared]

/-- What a reply to a line with a known command does not hold: the sentences of these faults, and
the code of an unknown command. -/
def unsaid : List String := unknownCommand.code :: unheard.map sentence

/-- The texts one by one. -/
theorem forall_mem_unsaid {P : String → Prop} :
    (∀ text ∈ unsaid, P text) ↔
      P "IllegalCommand" ∧ P "Unknown computation kind" ∧ P "Invalid stat kind" ∧
        P "The expression has not been initialized" := by
  have texts : unsaid = ["IllegalCommand", "Unknown computation kind", "Invalid stat kind",
      "The expression has not been initialized"] := rfl
  simp only [texts, List.forall_mem_cons, List.not_mem_nil, false_imp_iff, implies_true, and_true]

end Fault

namespace Reply

/-- Whether a sentence stands anywhere in the text of a reply. -/
def Holds (reply : Reply) (sentence : String) : Prop :=
  sentence.toList <:+: reply.text.toList

/-- The text of an error. -/
theorem toList_text_ofFault (fault : Fault) :
    (ofFault fault).text.toList =
      "ERR;(".toList ++ fault.code.toList ++ ") ".toList ++ fault.sentence.toList := by
  have opening : "ERR;(".toList = ['E', 'R', 'R', ';', '('] := rfl
  have closing : ") ".toList = [')', ' '] := rfl
  have parts : (ofFault fault).fields.map String.toList =
      [['E', 'R', 'R'], '(' :: (fault.code.toList ++ ')' :: ' ' :: fault.sentence.toList)] := by
    rw [← Fault.toList_message]
    rfl
  rw [toList_text, parts, opening, closing]
  simp [List.intercalate]

/-- The text of a success holds nothing but numbers and what sets them apart. -/
theorem not_mem_success {elapsed : Duration} {answer : Answer} {c : Char}
    (other : Number.isGlyph c = false) (apart : c ∉ ['O', 'K', ';']) :
    c ∉ (success elapsed answer).text.toList := by
  have absent {text : List Char} (glyphs : ∀ c ∈ text, Number.isGlyph c = true) : c ∉ text := by
    intro member
    rw [glyphs c member] at other
    cases other
  refine not_mem_text (fun same => apart (by simp [same])) ?_
  simp only [fields, List.forall_mem_cons, List.not_mem_nil, false_imp_iff, implies_true, and_true]
  refine ⟨fun member => apart ?_, ?_, absent answer.isGlyph_text⟩
  · exact List.mem_append_left [';'] member
  · exact absent (Number.fixed_form _ (by decide)).isGlyph

/-- An acknowledgement holds none of these texts. -/
theorem not_holds_acknowledged : ∀ text ∈ Fault.unsaid, ¬ acknowledged.Holds text := by
  simp only [Holds]
  decide +kernel

/-- A success holds none of them: it has no capital but those of its first word, and no blank. -/
theorem not_holds_success (elapsed : Duration) (answer : Answer) :
    ∀ text ∈ Fault.unsaid, ¬ (success elapsed answer).Holds text := by
  have capital : 'C' ∉ (success elapsed answer).text.toList :=
    not_mem_success (by decide) (by decide)
  have blank : ' ' ∉ (success elapsed answer).text.toList :=
    not_mem_success (by decide) (by decide)
  refine Fault.forall_mem_unsaid.mpr ⟨?_, ?_, ?_, ?_⟩
  · exact fun part => capital (part.subset (by decide))
  · exact fun part => blank (part.subset (by decide))
  · exact fun part => blank (part.subset (by decide))
  · exact fun part => blank (part.subset (by decide))

/-- A sentence that the error for an unknown variable holds begins before the name does, and cannot
go on in it with a character that names lack. -/
theorem not_holds_unknownVariable {name sentence : String}
    (spelled : Formula.isName name.toList = true) (front : List Char) (c : Char) {rest : List Char}
    (parts : sentence.toList = front ++ c :: rest)
    (foreign : ¬ (c.isLower = true ∨ c.isDigit = true))
    (apart : ¬ front ++ [c] <:+: "ERR;(InvalidExpression) Unknown variable ".toList) :
    ¬ (ofFault (.formula (.unknownVariable name))).Holds sentence := by
  intro part
  have whole : (ofFault (.formula (.unknownVariable name))).text.toList =
      "ERR;(InvalidExpression) Unknown variable ".toList ++ name.toList := by
    have opening : "ERR;(".toList ++ "InvalidExpression".toList ++ ") ".toList ++
        "Unknown variable ".toList = "ERR;(InvalidExpression) Unknown variable ".toList := by
      decide
    have named : ("Unknown variable " ++ name).toList =
        "Unknown variable ".toList ++ name.toList := String.toList_append
    calc (ofFault (.formula (.unknownVariable name))).text.toList
      _ = "ERR;(".toList ++ "InvalidExpression".toList ++ ") ".toList ++
          ("Unknown variable ".toList ++ name.toList) :=
        (toList_text_ofFault _).trans (congrArg _ named)
      _ = "ERR;(".toList ++ "InvalidExpression".toList ++ ") ".toList ++
          "Unknown variable ".toList ++ name.toList := (List.append_assoc _ _ _).symm
      _ = "ERR;(InvalidExpression) Unknown variable ".toList ++ name.toList :=
        congrArg (· ++ name.toList) opening
  rw [Holds, parts, whole] at part
  refine apart (Text.infix_of_infix_append part fun member => foreign ?_)
  exact Formula.isLower_or_isDigit spelled c member

end Reply

/-- What else may be wrong is told without these texts. -/
theorem Fault.Arises.not_holds {fault : Fault} (arises : fault.Arises) :
    ∀ sentence ∈ unsaid, ¬ (Reply.ofFault fault).Holds sentence := by
  cases arises with
  | @unknownVariable name spelled =>
    refine forall_mem_unsaid.mpr ⟨?_, ?_, ?_, ?_⟩
    · exact Reply.not_holds_unknownVariable spelled "Illegal".toList 'C' rfl (by decide) (by decide)
    · exact Reply.not_holds_unknownVariable spelled "Unknown computation".toList ' ' rfl (by decide)
        (by decide)
    · exact Reply.not_holds_unknownVariable spelled "Invalid stat".toList ' ' rfl (by decide)
        (by decide)
    · exact Reply.not_holds_unknownVariable spelled "The".toList ' ' rfl (by decide) (by decide)
  | _ =>
    simp only [Reply.Holds, Reply.toList_text_ofFault]
    decide +kernel

namespace Dispatch

/-- The replies that a line gets at once or by the job that comes of it, whatever was recorded and
however long it takes. -/
inductive Gives (line : String) : Reply → Prop
  | atOnce {reply : Reply} (known : ofLine line = .reply reply) : Gives line reply
  | quit {reply : Reply} (known : ofLine line = .quit reply) : Gives line reply
  | ran {job : Job} (submitted : ofLine line = .submit job) (elapsed : Duration)
      (timings : Timings) : Gives line (job.run elapsed timings).1.reply

/-- A line with a known command is acknowledged or answered, or one of few faults arises. -/
theorem Gives.cases_of {line : String} {reply : Reply} (gives : Gives line reply) :
    RequestKind.ofCommand (Request.commandOf line) = .unknown ∧ reply = .ofFault .unknownCommand ∨
      RequestKind.ofCommand (Request.commandOf line) ≠ .unknown ∧
        (reply = .acknowledged ∨ (∃ elapsed answer, reply = .success elapsed answer) ∨
          ∃ fault : Fault, fault.Arises ∧ reply = .ofFault fault) := by
  have makes := makes_ofLine line
  have known (kind : RequestKind) (listed : RequestKind.Listed (Request.commandOf line) kind)
      (other : kind ≠ .unknown) : RequestKind.ofCommand (Request.commandOf line) ≠ .unknown := by
    rwa [RequestKind.ofCommand_eq_iff.mpr listed]
  cases gives with
  | atOnce told =>
    rw [told] at makes
    cases makes with
    | refused listed read arises =>
      exact .inr ⟨known _ (.sweep listed) (by decide), .inr (.inr ⟨_, arises, rfl⟩)⟩
    | unknown unlisted => exact .inl ⟨unlisted, rfl⟩
  | quit told =>
    rw [told] at makes
    cases makes with
    | quit listed => exact .inr ⟨known _ (.quit listed) (by decide), .inl rfl⟩
  | @ran job submitted elapsed timings =>
    rw [submitted] at makes
    have listed : RequestKind.ofCommand (Request.commandOf line) ≠ .unknown := by
      cases makes with
      | statistic listed read => exact known _ (.statistic listed) (by decide)
      | sweep listed read => exact known _ (.sweep listed) (by decide)
    refine .inr ⟨listed, .inr ?_⟩
    obtain ⟨answer, same⟩ | failed := job.reply_run_cases elapsed timings
    · exact .inl ⟨elapsed, answer, same⟩
    · exact .inr failed

/-- No reply to a line with a known command holds one of these texts, now or later. -/
theorem Gives.not_holds {line : String} {reply : Reply} (gives : Gives line reply)
    (known : RequestKind.ofCommand (Request.commandOf line) ≠ .unknown) :
    ∀ text ∈ Fault.unsaid, ¬ reply.Holds text := by
  obtain ⟨unknown, -⟩ | ⟨-, rfl | ⟨elapsed, answer, rfl⟩ | ⟨fault, arises, rfl⟩⟩ := gives.cases_of
  · exact absurd unknown known
  · exact Reply.not_holds_acknowledged
  · exact Reply.not_holds_success elapsed answer
  · exact arises.not_holds

/-- No reply at all holds the sentence of a fault of which no client hears. -/
theorem Gives.not_holds_unheard {line : String} {reply : Reply} (gives : Gives line reply) :
    ∀ fault ∈ Fault.unheard, ¬ reply.Holds fault.sentence := by
  obtain ⟨-, rfl⟩ | ⟨known, -⟩ := gives.cases_of
  · simp only [Reply.Holds, Reply.toList_text_ofFault]
    decide +kernel
  · intro fault member
    exact gives.not_holds known _ (List.mem_cons_of_mem _ (List.mem_map_of_mem member))

/-- The code of an unknown command stands in a reply exactly if the command is unknown. -/
theorem Gives.holds_code_iff {line : String} {reply : Reply} (gives : Gives line reply) :
    reply.Holds Fault.unknownCommand.code ↔
      RequestKind.ofCommand (Request.commandOf line) = .unknown := by
  obtain ⟨unknown, rfl⟩ | ⟨known, -⟩ := gives.cases_of
  · refine iff_of_true ?_ unknown
    simp only [Reply.Holds, Reply.toList_text_ofFault]
    decide +kernel
  · exact iff_of_false (gives.not_holds known _ List.mem_cons_self) known

/-- Only lines with a command of a table become jobs: those for a statistic, and those for a sweep
that can be read. -/
theorem exists_submit_iff {line : String} :
    (∃ job, ofLine line = .submit job) ↔
      Request.commandOf line ∈ RequestKind.statisticCommands ∨
        Request.commandOf line ∈ RequestKind.sweepCommands ∧
          ∃ sweep, Sweep.read line = .ok sweep := by
  have makes := makes_ofLine line
  constructor
  · rintro ⟨job, submitted⟩
    rw [submitted] at makes
    cases makes with
    | statistic listed read => exact .inl listed
    | sweep listed read => exact .inr ⟨listed, _, read⟩
  · intro accepted
    obtain ⟨fromQuit, fromStatistic⟩ := RequestKind.tables_disjoint
    generalize ofLine line = dispatch at makes
    cases makes with
    | statistic listed read => exact ⟨_, rfl⟩
    | sweep listed read => exact ⟨_, rfl⟩
    | quit listed =>
      obtain ⟨noStatistic, noSweep⟩ := fromQuit _ listed
      obtain asks | ⟨sweeps, -⟩ := accepted
      · exact absurd asks noStatistic
      · exact absurd sweeps noSweep
    | refused listed read arises =>
      obtain asks | ⟨-, sweep, other⟩ := accepted
      · exact absurd listed (fromStatistic _ asks)
      · cases read.symm.trans other
    | unknown unlisted =>
      obtain ⟨-, noStatistic, noSweep⟩ := RequestKind.ofCommand_eq_unknown_iff.mp unlisted
      obtain asks | ⟨sweeps, -⟩ := accepted
      · exact absurd asks noStatistic
      · exact absurd sweeps noSweep

/-- A line is refused for its command exactly if the command is unknown. -/
theorem ofLine_eq_unknownCommand_iff {line : String} :
    ofLine line = .reply (.ofFault .unknownCommand) ↔
      RequestKind.ofCommand (Request.commandOf line) = .unknown := by
  have makes := makes_ofLine line
  constructor
  · intro told
    rw [told] at makes
    generalize fault : Reply.ofFault .unknownCommand = reply at makes
    cases makes with
    | refused listed read arises =>
      obtain rfl : Fault.unknownCommand = _ := by simpa [Reply.ofFault] using fault
      cases arises
    | unknown unlisted => exact unlisted
  · intro unlisted
    have kind : (Request.ofMessage line).kind = .unknown := unlisted
    simp only [ofLine, kind]

/-- Tables and readers agree on every command. A command is one for a sweep exactly if the reader of
sweeps knows it, and one for a statistic exactly if the reader of statistics does; no command stands
in two tables. So every line, and every job that comes of one, is replied to without the sentences
of the three faults that a disagreement or a formula without preparation would bring about: the
reply does not hold them anywhere. The code of an unknown command is in the reply exactly if what
stands before the first semicolon is in no table, and then it is all the reply says. And a line
becomes a job exactly if it asks for a statistic, or for a sweep that can be read.

Proof: the reader of sweeps knows what an aggregate and a kind of space join to, and these are the
commands of its table; the same goes for statistics. What is left to object to is worded in advance,
but for the name of a variable, which holds neither a blank nor a capital. -/
theorem agrees_with_readers :
    (∀ command : String,
      (RequestKind.ofCommand command = .sweep ↔
        ∃ kinds, Sweep.readCommand command.toList = .ok kinds) ∧
      (RequestKind.ofCommand command = .statistic ↔
        ∃ statistic, Statistic.read command = .ok statistic) ∧
      (command ∈ RequestKind.quitCommands →
        command ∉ RequestKind.statisticCommands ∧ command ∉ RequestKind.sweepCommands) ∧
      (command ∈ RequestKind.statisticCommands → command ∉ RequestKind.sweepCommands)) ∧
    ∀ line : String,
      (Sweep.read line = .error (.argument .unknownComputation) ↔
        RequestKind.ofCommand (Request.commandOf line) ≠ .sweep) ∧
      (∀ reply, Gives line reply →
        ¬ reply.Holds (Fault.argument .unknownComputation).sentence ∧
        ¬ reply.Holds (Fault.argument .unknownStatistic).sentence ∧
        ¬ reply.Holds (Fault.formula .unprepared).sentence ∧
        (reply.Holds Fault.unknownCommand.code ↔
          Request.commandOf line ∉ RequestKind.quitCommands ∧
            Request.commandOf line ∉ RequestKind.statisticCommands ∧
            Request.commandOf line ∉ RequestKind.sweepCommands)) ∧
      (ofLine line = .reply (.ofFault .unknownCommand) ↔
        Request.commandOf line ∉ RequestKind.quitCommands ∧
          Request.commandOf line ∉ RequestKind.statisticCommands ∧
          Request.commandOf line ∉ RequestKind.sweepCommands) ∧
      ((∃ job, ofLine line = .submit job) ↔
        Request.commandOf line ∈ RequestKind.statisticCommands ∨
          Request.commandOf line ∈ RequestKind.sweepCommands ∧
            ∃ sweep, Sweep.read line = .ok sweep) := by
  obtain ⟨fromQuit, fromStatistic⟩ := RequestKind.tables_disjoint
  constructor
  · intro command
    refine ⟨?_, ?_, fromQuit command, fromStatistic command⟩
    · rw [RequestKind.ofCommand_eq_sweep_iff, Sweep.exists_readCommand_iff]
    · rw [RequestKind.ofCommand_eq_statistic_iff, Statistic.exists_read_iff]
  · intro line
    refine ⟨?_, fun reply gives => ?_, ?_, exists_submit_iff⟩
    · rw [Sweep.read_eq_unknownComputation_iff, ne_eq, RequestKind.ofCommand_eq_sweep_iff]
    · have absent := gives.not_holds_unheard
      simp only [Fault.unheard, List.forall_mem_cons, List.not_mem_nil, false_imp_iff,
        implies_true, and_true] at absent
      obtain ⟨computation, statistic, unprepared⟩ := absent
      refine ⟨computation, statistic, unprepared, ?_⟩
      rw [gives.holds_code_iff, RequestKind.ofCommand_eq_unknown_iff]
    · rw [ofLine_eq_unknownCommand_iff, RequestKind.ofCommand_eq_unknown_iff]

end Dispatch

end ParamSweep
