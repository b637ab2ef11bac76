import ParamSweep.Proofs.Request.Grammar
import ParamSweep.Request.Basic

/-!
# Two ways to recognise a command

A command is looked up twice: first in the tables that decide what kind of request a message is,
and then by the reader of that kind, which takes the command apart into words. The tables hold the
commands in full and stand apart from the words; nothing but the lemmas below keeps them from
drifting apart. Both look at the same text, although one takes what stands before the first
semicolon and the other the first of the fields that are left without the empty ones at the end.
-/

namespace ParamSweep

namespace Text

/-- Dropping empty pieces at the end does not change which piece is first, if none at all counts as
an empty one. -/
theorem headD_dropTrailingEmpty (pieces : List (List Char)) :
    (dropTrailingEmpty pieces).headD [] = pieces.headD [] := by
  cases pieces with
  | nil => rfl
  | cons piece rest =>
    rw [dropTrailingEmpty_cons]
    split
    next empty =>
      obtain ⟨nothing, -⟩ := Bool.and_eq_true_iff.mp empty
      exact (List.isEmpty_iff.mp nothing).symm
    next => rfl

/-- The first field of a text is what stands before its first separator. -/
theorem headD_fields (separator : Char) (text : List Char) :
    (fields separator text).headD [] = text.takeWhile (· ≠ separator) := by
  rw [fields, headD_dropTrailingEmpty]
  induction text with
  | nil => rfl
  | cons c text inductionHypothesis =>
    rw [pieces_cons, List.takeWhile_cons]
    by_cases same : c = separator
    · rw [if_pos same, if_neg (by simpa using same)]
      rfl
    · rw [if_neg same, if_pos (by simpa using same), ← inductionHypothesis]
      cases pieces separator text <;> rfl

end Text

/-- The texts that ask for a sweep are those of the table. -/
theorem Sweep.exists_commands_iff {command : String} :
    (∃ aggregate kind, Commands command.toList aggregate kind) ↔
      command ∈ RequestKind.sweepCommands := by
  constructor
  · rintro ⟨aggregate, kind, named⟩
    obtain rfl : command = String.ofList (aggregate.word.toList ++ '_' :: kind.word.toList) := by
      rw [← String.ofList_toList (s := command), named]
    cases aggregate <;> cases kind <;> decide
  · intro listed
    simp only [RequestKind.sweepCommands, List.mem_cons, List.not_mem_nil, or_false] at listed
    obtain rfl | rfl | rfl | rfl | rfl | rfl | rfl | rfl := listed
    · exact ⟨.least, .grid, rfl⟩
    · exact ⟨.greatest, .grid, rfl⟩
    · exact ⟨.average, .grid, rfl⟩
    · exact ⟨.count, .grid, rfl⟩
    · exact ⟨.least, .list, rfl⟩
    · exact ⟨.greatest, .list, rfl⟩
    · exact ⟨.average, .list, rfl⟩
    · exact ⟨.count, .list, rfl⟩

/-- The reader of sweeps knows exactly the commands in its table. -/
theorem Sweep.exists_readCommand_iff {command : String} :
    (∃ kinds, readCommand command.toList = .ok kinds) ↔ command ∈ RequestKind.sweepCommands := by
  rw [← exists_commands_iff]
  constructor
  · rintro ⟨⟨aggregate, kind⟩, read⟩
    exact ⟨aggregate, kind, readCommand_eq_ok.mp read⟩
  · rintro ⟨aggregate, kind, named⟩
    exact ⟨(aggregate, kind), readCommand_eq_ok.mpr named⟩

namespace Sweep

/-- The first field of a message is its command. -/
theorem headD_eq_commandOf {message : String} {fields : List (List Char)}
    (cut : Text.FieldsOf ';' message.toList fields) :
    fields.headD [] = (Request.commandOf message).toList := by
  rw [← Text.fields_eq_iff.mpr cut, Text.headD_fields, Request.commandOf, String.toList_ofList]

/-- The reader of sweeps does not know the command exactly if the table does not. -/
theorem read_eq_unknownComputation_iff {message : String} :
    read message = .error (.argument .unknownComputation) ↔
      Request.commandOf message ∉ RequestKind.sweepCommands := by
  rw [← exists_commands_iff]
  constructor
  · intro refused
    have asks := asks_read message
    rw [refused] at asks
    cases asks with
    | unknown cut unnamed =>
      rintro ⟨aggregate, kind, named⟩
      exact unnamed aggregate kind (headD_eq_commandOf cut ▸ named)
    | badDeclaration cut named declared good first => cases first
  · intro unlisted
    have cut := Text.fields_eq_iff.mp (rfl : Text.fields ';' message.toList = _)
    refine read_of_unnamed cut fun aggregate kind named => unlisted ⟨aggregate, kind, ?_⟩
    exact headD_eq_commandOf cut ▸ named

end Sweep

namespace Statistic

/-- Only its own word is read as a statistic. -/
theorem word_of_statistic {word : String} {statistic : Statistic}
    (known : ofWord? word = some statistic) : statistic.word = word := by
  unfold ofWord? at known
  split at known <;> cases known <;> rfl

/-- A statistic is read from the mark and its word. -/
theorem read_eq_ok {command : String} {statistic : Statistic} :
    read command = .ok statistic ↔ command = mark ++ statistic.word := by
  constructor
  · intro accepted
    unfold read at accepted
    split at accepted
    next => cases accepted
    next word cut =>
      split at accepted
      next other known =>
        obtain rfl := Except.ok.inj accepted
        have parts := List.append_eq_of_isPrefixOf?_eq_some cut
        rw [word_of_statistic known, ← String.ofList_toList (s := command), ← parts,
          String.ofList_append, String.ofList_toList]
      next => cases accepted
  · rintro rfl
    cases statistic <;> rfl

/-- The reader of statistics knows exactly the commands in its table. -/
theorem exists_read_iff {command : String} :
    (∃ statistic, read command = .ok statistic) ↔ command ∈ RequestKind.statisticCommands := by
  simp only [read_eq_ok]
  constructor
  · rintro ⟨statistic, rfl⟩
    cases statistic <;> decide
  · intro listed
    simp only [RequestKind.statisticCommands, List.mem_cons, List.not_mem_nil, or_false] at listed
    obtain rfl | rfl | rfl := listed
    · exact ⟨.requests, rfl⟩
    · exact ⟨.averageTime, rfl⟩
    · exact ⟨.longestTime, rfl⟩

end Statistic

namespace RequestKind

/-- No command stands in two tables. -/
theorem tables_disjoint :
    (∀ command ∈ quitCommands, command ∉ statisticCommands ∧ command ∉ sweepCommands) ∧
      ∀ command ∈ statisticCommands, command ∉ sweepCommands := by
  decide

/-- A command is of the kind whose table has it, and of no known kind if it stands in none. -/
inductive Listed (command : String) : RequestKind → Prop
  | quit (listed : command ∈ quitCommands) : Listed command .quit
  | statistic (listed : command ∈ statisticCommands) : Listed command .statistic
  | sweep (listed : command ∈ sweepCommands) : Listed command .sweep
  | unknown (noQuit : command ∉ quitCommands) (noStatistic : command ∉ statisticCommands)
      (noSweep : command ∉ sweepCommands) : Listed command .unknown

variable {command : String}

/-- A command has one kind, since no two tables share it. -/
theorem ofCommand_eq_iff {kind : RequestKind} :
    ofCommand command = kind ↔ Listed command kind := by
  obtain ⟨fromQuit, fromStatistic⟩ := tables_disjoint
  constructor
  · rintro rfl
    unfold ofCommand
    split_ifs with quits asks sweeps
    · exact .quit (List.contains_iff_mem.mp quits)
    · exact .statistic (List.contains_iff_mem.mp asks)
    · exact .sweep (List.contains_iff_mem.mp sweeps)
    · simp only [List.contains_iff_mem] at quits asks sweeps
      exact .unknown quits asks sweeps
  · intro listed
    simp only [ofCommand, List.contains_iff_mem]
    cases listed with
    | quit listed => exact if_pos listed
    | statistic listed =>
      have noQuit : command ∉ quitCommands := fun quits => (fromQuit command quits).1 listed
      rw [if_neg noQuit, if_pos listed]
    | sweep listed =>
      have noQuit : command ∉ quitCommands := fun quits => (fromQuit command quits).2 listed
      have noStatistic : command ∉ statisticCommands := fun asks =>
        fromStatistic command asks listed
      rw [if_neg noQuit, if_neg noStatistic, if_pos listed]
    | unknown noQuit noStatistic noSweep => rw [if_neg noQuit, if_neg noStatistic, if_neg noSweep]

/-- A command asks for a statistic exactly if it is in the table of statistics. -/
theorem ofCommand_eq_statistic_iff :
    ofCommand command = .statistic ↔ command ∈ statisticCommands := by
  rw [ofCommand_eq_iff]
  constructor
  · rintro (_ | listed)
    exact listed
  · exact .statistic

/-- It asks for a sweep exactly if it is in the table of sweeps. -/
theorem ofCommand_eq_sweep_iff : ofCommand command = .sweep ↔ command ∈ sweepCommands := by
  rw [ofCommand_eq_iff]
  constructor
  · rintro (_ | _ | listed)
    exact listed
  · exact .sweep

/-- It is unknown if it is in no table. -/
theorem ofCommand_eq_unknown_iff :
    ofCommand command = .unknown ↔
      command ∉ quitCommands ∧ command ∉ statisticCommands ∧ command ∉ sweepCommands := by
  rw [ofCommand_eq_iff]
  constructor
  · rintro (_ | _ | _ | ⟨noQuit, noStatistic, noSweep⟩)
    exact ⟨noQuit, noStatistic, noSweep⟩
  · rintro ⟨noQuit, noStatistic, noSweep⟩
    exact .unknown noQuit noStatistic noSweep

end RequestKind

end ParamSweep
