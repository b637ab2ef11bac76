import ParamSweep.Proofs.Domain.Declaration
import ParamSweep.Proofs.Request.Spelling
import ParamSweep.Proofs.Text.Items
import ParamSweep.Request.SweepMessage

/-!
# Which messages ask for a sweep

A message that asks for a sweep names it, declares variables and, unless it only counts, gives
formulas over them. What comes of a message is stated here for every way in which it can fail, each
with all that was found to be in order before, and for the two ways in which it is accepted. The
fields of a message and the declarations in its second field are given by what joins to them, and
formulas by the pieces that they are joined from.
-/

namespace ParamSweep

/-- The command for an aggregate and a kind of space. -/
def Sweep.Commands (command : List Char) (aggregate : Aggregate) (kind : SpaceKind) : Prop :=
  command = aggregate.word.toList ++ '_' :: kind.word.toList

namespace Sweep

open Text (FieldsOf)

/-- A field of declarations that are all in order, at least one. -/
structure Lists (field : List Char) (domains : List Domain) : Prop where
  some : domains ≠ []
  each : ∃ declarations, FieldsOf ',' field declarations ∧
    List.Forall₂ (fun declaration domain => Domain.Declares declaration (.ok domain))
      declarations domains

/-- A formula that is joined from the names of some domains and the characters of numbers, operators
and brackets. -/
def Allows (domains : List Domain) (formula : List Char) : Prop :=
  Request.IsConcatenation (domains.map (·.name.toList)) formula

/-- What comes of a message. -/
inductive Asks (message : String) : Except Fault Sweep → Prop
  | unknown {fields : List (List Char)} (cut : FieldsOf ';' message.toList fields)
      (unnamed : ∀ aggregate kind, ¬ Commands (fields.headD []) aggregate kind) :
      Asks message (.error (.argument .unknownComputation))
  | undeclared {command : List Char} {aggregate : Aggregate} {kind : SpaceKind}
      (cut : FieldsOf ';' message.toList [command]) (named : Commands command aggregate kind) :
      Asks message (.error .missingFields)
  | badDeclaration {command field bad : List Char} {others : List (List Char)}
      {aggregate : Aggregate} {kind : SpaceKind} {before behind : List (List Char)} {fault : Fault}
      (cut : FieldsOf ';' message.toList (command :: field :: others))
      (named : Commands command aggregate kind)
      (declared : FieldsOf ',' field (before ++ bad :: behind))
      (good : ∀ declaration ∈ before, ∃ domain, Domain.Declares declaration (.ok domain))
      (first : Domain.Declares bad (.error fault)) : Asks message (.error fault)
  | unlisted {command field : List Char} {others : List (List Char)} {aggregate : Aggregate}
      {kind : SpaceKind} (cut : FieldsOf ';' message.toList (command :: field :: others))
      (named : Commands command aggregate kind) (declared : FieldsOf ',' field []) :
      Asks message (.error (.formula .badVariable))
  | noFormula {command field : List Char} {aggregate : Aggregate} {kind : SpaceKind}
      {domains : List Domain} (cut : FieldsOf ';' message.toList [command, field])
      (named : Commands command aggregate kind) (lists : Lists field domains)
      (wanted : aggregate ≠ .count) : Asks message (.error .missingFields)
  | badFormula {command field formula : List Char} {others : List (List Char)}
      {aggregate : Aggregate} {kind : SpaceKind} {domains : List Domain}
      (cut : FieldsOf ';' message.toList (command :: field :: others))
      (named : Commands command aggregate kind) (lists : Lists field domains)
      (wanted : aggregate ≠ .count) (given : formula ∈ others)
      (misspelled : ¬ Allows domains formula) : Asks message (.error (.formula .badSpelling))
  | counts {command field : List Char} {others : List (List Char)} {kind : SpaceKind}
      {domains : List Domain} (cut : FieldsOf ';' message.toList (command :: field :: others))
      (named : Commands command .count kind) (lists : Lists field domains) :
      Asks message (.ok { aggregate := .count, kind, domains, formulas := [] })
  | evaluates {command field : List Char} {others : List (List Char)} {aggregate : Aggregate}
      {kind : SpaceKind} {domains : List Domain}
      (cut : FieldsOf ';' message.toList (command :: field :: others))
      (named : Commands command aggregate kind) (lists : Lists field domains)
      (wanted : aggregate ≠ .count) (some : others ≠ [])
      (spelled : ∀ formula ∈ others, Allows domains formula) :
      Asks message (.ok { aggregate, kind, domains, formulas := others.map String.ofList })

/-! ### The fields of a message -/

/-- Only its own word is read as an aggregate. -/
theorem word_of_aggregate {word : String} {aggregate : Aggregate}
    (known : Aggregate.ofWord? word = some aggregate) : aggregate.word = word := by
  unfold Aggregate.ofWord? at known
  split at known <;> cases known <;> rfl

/-- Only its own word is read as a kind of space. -/
theorem word_of_kind {word : String} {kind : SpaceKind}
    (known : SpaceKind.ofWord? word = some kind) : kind.word = word := by
  unfold SpaceKind.ofWord? at known
  split at known <;> cases known <;> rfl

/-- A command is read if it joins two words by an underscore. -/
theorem readCommand_eq_ok {command : List Char} {aggregate : Aggregate} {kind : SpaceKind} :
    readCommand command = .ok (aggregate, kind) ↔ Commands command aggregate kind := by
  constructor
  · intro read
    unfold readCommand at read
    split at read
    next kinds found =>
      obtain rfl := Except.ok.inj read
      obtain ⟨⟨first, second⟩, cut, words⟩ := Option.bind_eq_some_iff.mp found
      obtain ⟨_, ofFirst, words⟩ := Option.bind_eq_some_iff.mp words
      obtain ⟨_, ofSecond, same⟩ := Option.bind_eq_some_iff.mp words
      obtain ⟨rfl, rfl⟩ := Prod.mk.inj (Option.some.inj same)
      unfold cutCommand? at cut
      split at cut
      next => cases cut
      next mark behind rest =>
        obtain ⟨rfl, rfl⟩ := Prod.mk.inj (Option.some.inj cut)
        rw [Commands, word_of_aggregate ofFirst, word_of_kind ofSecond, String.toList_ofList,
          String.toList_ofList]
        exact Text.eq_of_dropWhile_ne rest
    next => cases read
  · rintro rfl
    cases aggregate <;> cases kind <;> rfl

/-- A text that joins no two such words is no command. -/
theorem readCommand_eq_error {command : List Char} {fault : Fault} :
    readCommand command = .error fault ↔
      (∀ aggregate kind, ¬ Commands command aggregate kind) ∧
        fault = .argument .unknownComputation := by
  constructor
  · intro read
    refine ⟨fun aggregate kind named => ?_, ?_⟩
    · rw [readCommand_eq_ok.mpr named] at read
      cases read
    · unfold readCommand at read
      split at read
      next => cases read
      next => exact (Except.error.inj read).symm
  · rintro ⟨unnamed, rfl⟩
    cases read : readCommand command with
    | error fault =>
      unfold readCommand at read
      split at read
      next => cases read
      next => exact read.symm
    | ok kinds => exact absurd (readCommand_eq_ok.mp read) (unnamed kinds.1 kinds.2)

/-- Declarations are read if all are in order and there is one. -/
theorem readDomains_eq_ok {field : List Char} {domains : List Domain} :
    readDomains field = .ok domains ↔ Lists field domains := by
  constructor
  · intro read
    unfold readDomains at read
    cases each : (Text.fields ',' field).mapM Domain.read with
    | error fault =>
      rw [each] at read
      cases read
    | ok found =>
      rw [each] at read
      cases found with
      | nil => cases read
      | cons first rest =>
        obtain rfl := Except.ok.inj read
        refine ⟨List.cons_ne_nil _ _, _, Text.fields_eq_iff.mp rfl, ?_⟩
        simpa only [mapM_eq_ok, Domain.read_iff_declares] using each
  · rintro ⟨some, declarations, listed, each⟩
    have read : declarations.mapM Domain.read = .ok domains := by
      simpa only [mapM_eq_ok, Domain.read_iff_declares] using each
    rw [readDomains, Text.fields_eq_iff.mpr listed, read]
    cases domains with
    | nil => exact absurd rfl some
    | cons first rest => rfl

/-- The first declaration that is not in order is the one that counts. -/
theorem readDomains_eq_error {field : List Char} {fault : Fault} :
    readDomains field = .error fault ↔
      (∃ before bad behind, FieldsOf ',' field (before ++ bad :: behind) ∧
        (∀ declaration ∈ before, ∃ domain, Domain.Declares declaration (.ok domain)) ∧
        Domain.Declares bad (.error fault)) ∨
      FieldsOf ',' field [] ∧ fault = .formula .badVariable := by
  constructor
  · intro read
    unfold readDomains at read
    cases each : (Text.fields ',' field).mapM Domain.read with
    | error other =>
      rw [each] at read
      obtain rfl : other = fault := Except.error.inj read
      obtain ⟨before, bad, behind, parts, good, refused⟩ := mapM_eq_error.mp each
      simp only [Domain.read_iff_declares] at good refused
      exact .inl ⟨before, bad, behind, Text.fields_eq_iff.mp parts, good, refused⟩
    | ok found =>
      rw [each] at read
      cases found with
      | nil =>
        have none : Text.fields ',' field = [] := by
          have all := mapM_eq_ok.mp each
          cases fields : Text.fields ',' field with
          | nil => rfl
          | cons first rest =>
            rw [fields] at all
            cases all
        exact .inr ⟨Text.fields_eq_iff.mp none, (Except.error.inj read).symm⟩
      | cons first rest => cases read
  · rintro (⟨before, bad, behind, listed, good, refused⟩ | ⟨listed, rfl⟩)
    · simp only [← Domain.read_iff_declares] at good refused
      have read := mapM_eq_error.mpr ⟨before, bad, behind, rfl, good, refused⟩
      rw [readDomains, Text.fields_eq_iff.mpr listed, read]
      rfl
    · rw [readDomains, Text.fields_eq_iff.mpr listed]
      rfl

/-- A formula is kept as it is written if its spelling is allowed. -/
theorem readFormula_eq_ok {domains : List Domain} {formula : List Char} {source : String} :
    readFormula (domains.map (·.name.toList)) formula = .ok source ↔
      Allows domains formula ∧ String.ofList formula = source := by
  rw [Allows, ← Request.isSpelled_iff, readFormula]
  split <;> simp_all

/-- It is refused if its spelling is not. -/
theorem readFormula_eq_error {domains : List Domain} {formula : List Char} {fault : Fault} :
    readFormula (domains.map (·.name.toList)) formula = .error fault ↔
      ¬ Allows domains formula ∧ fault = .formula .badSpelling := by
  rw [Allows, ← Request.isSpelled_iff, readFormula]
  split
  next spelled => simp [spelled]
  next refused => simp [refused, eq_comm]

/-- Formulas are read as they stand if all are spelled as they may be and there is one. -/
theorem readFormulas_eq_ok {domains : List Domain} {fields : List (List Char)}
    {formulas : List String} :
    readFormulas domains fields = .ok formulas ↔
      fields ≠ [] ∧ (∀ formula ∈ fields, Allows domains formula) ∧
        fields.map String.ofList = formulas := by
  have sources : List.Forall₂ (fun formula source => String.ofList formula = source)
      fields formulas ↔ fields.map String.ofList = formulas := by
    rw [← List.forall₂_eq_eq_eq, List.forall₂_map_left_iff]
  have each : fields.mapM (readFormula (domains.map (·.name.toList))) = .ok formulas ↔
      (∀ formula ∈ fields, Allows domains formula) ∧ fields.map String.ofList = formulas := by
    simp only [mapM_eq_ok, readFormula_eq_ok, List.forall₂_and_left, sources]
  cases fields with
  | nil => simp [readFormulas]
  | cons first rest => simpa [readFormulas] using each

/-- Formulas are refused if there are none, or for the spelling of one. -/
theorem fault_of_readFormulas {domains : List Domain} {fields : List (List Char)} {fault : Fault}
    (refused : readFormulas domains fields = .error fault) :
    fields = [] ∧ fault = .missingFields ∨
      (∃ formula ∈ fields, ¬ Allows domains formula) ∧ fault = .formula .badSpelling := by
  unfold readFormulas at refused
  split at refused
  next none => exact .inl ⟨List.isEmpty_iff.mp none, (Except.error.inj refused).symm⟩
  next =>
    obtain ⟨before, bad, behind, rfl, -, misspelled⟩ := mapM_eq_error.mp refused
    obtain ⟨forbidden, rfl⟩ := readFormula_eq_error.mp misspelled
    exact .inr ⟨⟨bad, List.mem_append_right _ List.mem_cons_self, forbidden⟩, rfl⟩

/-- Those are the only formulas that are refused, and each for its own fault. -/
theorem readFormulas_eq_error {domains : List Domain} {fields : List (List Char)}
    {fault : Fault} :
    readFormulas domains fields = .error fault ↔
      fields = [] ∧ fault = .missingFields ∨
        (∃ formula ∈ fields, ¬ Allows domains formula) ∧ fault = .formula .badSpelling := by
  refine ⟨fault_of_readFormulas, ?_⟩
  rintro (⟨rfl, rfl⟩ | ⟨⟨formula, given, misspelled⟩, rfl⟩)
  · rfl
  · cases read : readFormulas domains fields with
    | ok formulas => exact absurd ((readFormulas_eq_ok.mp read).2.1 formula given) misspelled
    | error fault =>
      obtain ⟨rfl, -⟩ | ⟨-, rfl⟩ := fault_of_readFormulas read
      · cases given
      · rfl

/-! ### The message -/

section

variable {message : String} {aggregate : Aggregate} {kind : SpaceKind}

/-- A message whose first field is no command is refused for it. -/
theorem read_of_unnamed {fields : List (List Char)} (cut : FieldsOf ';' message.toList fields)
    (unnamed : ∀ aggregate kind, ¬ Commands (fields.headD []) aggregate kind) :
    read message = .error (.argument .unknownComputation) := by
  have refused := readCommand_eq_error.mpr ⟨unnamed, rfl⟩
  simp only [read, Text.fields_eq_iff.mpr cut, refused]
  rfl

/-- A message of a command alone lacks fields. -/
theorem read_of_command {command : List Char} (cut : FieldsOf ';' message.toList [command])
    (named : Commands command aggregate kind) : read message = .error .missingFields := by
  have known : readCommand ([command].headD []) = .ok (aggregate, kind) :=
    readCommand_eq_ok.mpr named
  simp only [read, Text.fields_eq_iff.mpr cut, known]
  rfl

/-- What is left to be read where the command is known and there are declarations. -/
theorem read_of_fields {command field : List Char} {others : List (List Char)}
    (cut : FieldsOf ';' message.toList (command :: field :: others))
    (named : Commands command aggregate kind) :
    read message = (readDomains field).bind fun domains =>
      (if aggregate = .count then .ok [] else readFormulas domains others).map fun formulas =>
        { aggregate, kind, domains, formulas } := by
  have known : readCommand ((command :: field :: others).headD []) = .ok (aggregate, kind) :=
    readCommand_eq_ok.mpr named
  simp only [read, Text.fields_eq_iff.mpr cut, known]
  refine congrArg (Except.bind (readDomains field)) (funext fun domains => ?_)
  by_cases counts : aggregate = .count
  · simp only [if_pos counts]
    rfl
  · simp only [if_neg counts]
    cases readFormulas domains others <;> rfl

end

/-- What is read from a message comes of it. -/
theorem asks_read (message : String) : Asks message (read message) := by
  obtain ⟨fields, cut⟩ : ∃ fields, FieldsOf ';' message.toList fields :=
    ⟨_, Text.fields_eq_iff.mp rfl⟩
  by_cases known : ∃ aggregate kind, Commands (fields.headD []) aggregate kind
  · obtain ⟨aggregate, kind, named⟩ := known
    obtain _ | ⟨command, _ | ⟨field, others⟩⟩ := fields
    · simp [Commands] at named
    · exact read_of_command cut named ▸ .undeclared cut named
    · rw [read_of_fields cut named]
      cases declared : readDomains field with
      | error fault =>
        obtain ⟨before, bad, behind, listed, good, first⟩ | ⟨listed, rfl⟩ :=
          readDomains_eq_error.mp declared
        · exact .badDeclaration cut named listed good first
        · exact .unlisted cut named listed
      | ok domains =>
        have lists := readDomains_eq_ok.mp declared
        by_cases wanted : aggregate = .count
        · subst wanted
          exact .counts cut named lists
        · simp only [Except.bind, if_neg wanted]
          cases given : readFormulas domains others with
          | error fault =>
            obtain ⟨rfl, rfl⟩ | ⟨⟨formula, member, misspelled⟩, rfl⟩ :=
              readFormulas_eq_error.mp given
            · exact .noFormula cut named lists wanted
            · exact .badFormula cut named lists wanted member misspelled
          | ok formulas =>
            obtain ⟨some, spelled, rfl⟩ := readFormulas_eq_ok.mp given
            exact .evaluates cut named lists wanted some spelled
  · simp only [not_exists] at known
    exact read_of_unnamed cut known ▸ .unknown cut known

/-- Of every message comes one thing, and it is what is read from it: the fault that the first
failing check names, or a sweep with the aggregate, the kind of space, the domains and the formulas
that the message names, in their order, if no check fails.

Proof: each list is read one by one, so what comes of it is settled by its first member that is
refused. The fields of a text are unique, and so is what each of them is read as; the checks that
stand before another are those that its case has passed. -/
theorem read_iff_asks {message : String} {result : Except Fault Sweep} :
    read message = result ↔ Asks message result := by
  constructor
  · rintro rfl
    exact asks_read message
  · intro asks
    cases asks with
    | unknown cut unnamed => exact read_of_unnamed cut unnamed
    | undeclared cut named => exact read_of_command cut named
    | badDeclaration cut named declared good first =>
      rw [read_of_fields cut named,
        readDomains_eq_error.mpr (.inl ⟨_, _, _, declared, good, first⟩)]
      rfl
    | unlisted cut named declared =>
      rw [read_of_fields cut named, readDomains_eq_error.mpr (.inr ⟨declared, rfl⟩)]
      rfl
    | noFormula cut named lists wanted =>
      rw [read_of_fields cut named, readDomains_eq_ok.mpr lists]
      simp only [Except.bind, if_neg wanted]
      rfl
    | badFormula cut named lists wanted given misspelled =>
      have refused := readFormulas_eq_error.mpr (.inr ⟨⟨_, given, misspelled⟩, rfl⟩)
      rw [read_of_fields cut named, readDomains_eq_ok.mpr lists]
      simp only [Except.bind, if_neg wanted, refused]
      rfl
    | counts cut named lists =>
      rw [read_of_fields cut named, readDomains_eq_ok.mpr lists]
      rfl
    | evaluates cut named lists wanted some spelled =>
      have read := readFormulas_eq_ok.mpr ⟨some, spelled, rfl⟩
      rw [read_of_fields cut named, readDomains_eq_ok.mpr lists]
      simp only [Except.bind, if_neg wanted, read]
      rfl

end Sweep

end ParamSweep
