import ParamSweep.Main
import ParamSweep.Proofs.Settings.Address

/-!
# Settings are in range

Whatever a document gives, each setting that is taken from it is a number that its place can hold,
and the address is one. So this holds of all settings that are read, if it holds of those that they
are read over. Settings are valid besides if there is a worker, some patience and room for a line.

What the service starts with, from its arguments and its environment, is both, and has an address
to listen on.
-/

namespace ParamSweep

namespace SettingsFault

/-- What a fault says of the settings. -/
def Afflicts (settings : Settings) : SettingsFault → Prop
  | noWorker => settings.workers = 0
  | noPatience => settings.idleTimeout = .zero
  | noRoom => settings.lineLimit = 0

end SettingsFault

namespace Settings

variable {settings result : Settings}

/-- Settings are valid if there is no fault in them. -/
theorem validate_eq_ok :
    settings.validate = .ok () ↔ ∀ fault : SettingsFault, ¬ fault.Afflicts settings := by
  unfold validate
  split_ifs with noWorker noPatience noRoom
  · exact iff_of_false nofun fun clean => clean .noWorker noWorker
  · exact iff_of_false nofun fun clean => clean .noPatience noPatience
  · exact iff_of_false nofun fun clean => clean .noRoom noRoom
  · refine iff_of_true rfl fun fault => ?_
    cases fault with
    | noWorker => exact noWorker
    | noPatience => exact noPatience
    | noRoom => exact noRoom

/-- The fault that is reported is the first one that the settings have. -/
theorem validate_eq_error {fault : SettingsFault} :
    settings.validate = .error fault ↔
      fault.Afflicts settings ∧
        ∀ other : SettingsFault, other.ctorIdx < fault.ctorIdx → ¬ other.Afflicts settings := by
  constructor
  · intro refused
    unfold validate at refused
    split_ifs at refused with noWorker noPatience noRoom
    all_goals
      cases refused
      refine ⟨‹_›, fun other before => ?_⟩
      cases other <;> first | exact absurd before (by decide) | assumption
  · rintro ⟨afflicts, clean⟩
    cases fault with
    | noWorker => exact if_pos afflicts
    | noPatience => exact (if_neg (clean .noWorker (by decide))).trans (if_pos afflicts)
    | noRoom =>
      exact (if_neg (clean .noWorker (by decide))).trans
        ((if_neg (clean .noPatience (by decide))).trans (if_pos afflicts))

/-! ### Ranges -/

/-- Every setting is a number that its place can hold, and the address is one. -/
structure InRange (settings : Settings) : Prop where
  address : settings.address.Proper
  port : settings.port < portLimit
  idleTimeout : settings.idleTimeout.nanoseconds < Duration.limit
  workers : settings.workers < wordLimit
  lineLimit : settings.lineLimit < wordLimit

/-- The defaults are in range. -/
theorem inRange_default : InRange {} where
  address := .v4 rfl (by decide)
  port := by decide
  idleTimeout := by decide
  workers := by decide
  lineLimit := by decide

/-- A natural number is read only below the limit. -/
theorem lt_of_natural? {limit n : Nat} {document : Document}
    (read : document.natural? limit = some n) : n < limit := by
  unfold Document.natural? at read
  split at read
  next =>
    split_ifs at read with proper
    cases read
    exact proper.2
  next => cases read

/-- A duration that is read from its two numbers can be stored. -/
theorem lt_limit_of_durationOf? {seconds nanoseconds : Document} {duration : Duration}
    (read : durationOf? seconds nanoseconds = some duration) :
    duration.nanoseconds < Duration.limit := by
  simp only [durationOf?, bind, Option.bind_eq_some_iff] at read
  obtain ⟨whole, -, fraction, -, read⟩ := read
  split_ifs at read with stored
  cases read
  exact stored

/-- So can every duration that a document gives. -/
theorem lt_limit_of_duration? {document : Document} {duration : Duration}
    (read : duration? document = some duration) : duration.nanoseconds < Duration.limit := by
  unfold duration? at read
  split at read
  next => exact lt_limit_of_durationOf? read
  next =>
    split at read
    next => exact lt_limit_of_durationOf? read
    next => cases read
  next => cases read

/-- One setting that is read keeps all of them in range. -/
theorem InRange.withSetting? (inRange : settings.InRange) {name : String} {value : Document}
    (read : settings.withSetting? name value = some result) : result.InRange := by
  unfold Settings.withSetting? at read
  split at read
  next =>
    simp only [bind, Option.bind_eq_some_iff] at read
    obtain ⟨address, ⟨text, -, found⟩, read⟩ := read
    cases read
    exact { inRange with address := Address.proper_of_ofText? found }
  next =>
    obtain ⟨port, found, rfl⟩ := Option.map_eq_some_iff.mp read
    exact { inRange with port := lt_of_natural? found }
  next =>
    obtain ⟨duration, found, rfl⟩ := Option.map_eq_some_iff.mp read
    exact { inRange with idleTimeout := lt_limit_of_duration? found }
  next =>
    obtain ⟨workers, found, rfl⟩ := Option.map_eq_some_iff.mp read
    exact { inRange with workers := lt_of_natural? found }
  next =>
    obtain ⟨lineLimit, found, rfl⟩ := Option.map_eq_some_iff.mp read
    exact { inRange with lineLimit := lt_of_natural? found }
  next =>
    cases read
    exact inRange

/-- A member of a document leaves the settings in range. -/
theorem InRange.withMember? {members : List (Option String × Document)}
    (inRange : settings.InRange) {name : String}
    (read : withMember? members settings name = some result) : result.InRange := by
  unfold Settings.withMember? at read
  split at read
  next =>
    cases read
    exact inRange
  next => exact inRange.withSetting? read
  next => cases read

/-- What every step of a fold keeps, the fold keeps. -/
theorem InRange.foldlM {α : Type} {step : Settings → α → Option Settings}
    (keeps : ∀ {settings result : Settings} {item : α}, settings.InRange →
      step settings item = some result → result.InRange)
    (inRange : settings.InRange) {items : List α}
    (read : items.foldlM step settings = some result) : result.InRange := by
  induction items generalizing settings with
  | nil =>
    cases read
    exact inRange
  | cons item items inductionHypothesis =>
    rw [List.foldlM_cons] at read
    obtain ⟨next, first, others⟩ := Option.bind_eq_some_iff.mp read
    exact inductionHypothesis (keeps inRange first) others

/-- Settings that are read from a document are in range, if those are that it is read over. -/
theorem InRange.withDocument? (inRange : settings.InRange) {document : Document}
    (read : settings.withDocument? document = some result) : result.InRange := by
  unfold Settings.withDocument? at read
  split at read
  next =>
    split_ifs at read
    exact inRange.foldlM (fun inRange found => inRange.withSetting? found) read
  next =>
    split_ifs at read
    exact inRange.foldlM (fun inRange found => inRange.withMember? found) read
  next => cases read

/-- Settings that are read from a text are in range, if those are that it is read over. -/
theorem InRange.withText? (inRange : settings.InRange) {text : String}
    (read : settings.withText? text = some result) : result.InRange := by
  obtain ⟨document, -, found⟩ := Option.bind_eq_some_iff.mp read
  exact inRange.withDocument? found

/-! ### Arguments and environment -/

/-- A number is read only below the limit. -/
theorem lt_of_numberBelow? {limit n : Nat} {text : List Char}
    (read : numberBelow? limit text = some n) : n < limit := by
  simp only [numberBelow?] at read
  split_ifs at read with proper
  cases read
  exact proper.2.2

/-- The number of workers that a text gives is positive and fits into a word. -/
theorem workersOfText?_range {text : String} {workers : Nat}
    (read : workersOfText? text = some workers) : 0 < workers ∧ workers < wordLimit := by
  obtain ⟨found, above⟩ := Option.filter_eq_some_iff.mp read
  exact ⟨of_decide_eq_true above, lt_of_numberBelow? found⟩

/-- There is a worker, whatever the environment says and however many processors there are. -/
theorem workersFrom_range (asked : Option String) {processors : Nat}
    (few : processors < wordLimit) :
    0 < workersFrom asked processors ∧ workersFrom asked processors < wordLimit := by
  unfold workersFrom
  cases read : asked.bind workersOfText? with
  | none =>
    have one : 1 < wordLimit := by decide
    exact ⟨by simp, by simpa using ⟨one, few⟩⟩
  | some workers =>
    obtain ⟨text, -, found⟩ := Option.bind_eq_some_iff.mp read
    exact workersOfText?_range found

/-- Settings in range have an address to listen on. -/
theorem InRange.exists_socketAddress (inRange : settings.InRange) :
    ∃ address, Server.socketAddress? settings = some address := by
  obtain ⟨address, port, idleTimeout, workers, lineLimit⟩ := settings
  cases inRange.address with
  | @v4 octets count =>
    obtain ⟨a, b, c, d, rfl⟩ := List.length_eq_four.mp count
    exact ⟨_, rfl⟩
  | @v6 groups count =>
    match groups, count with
    | [a, b, c, d, e, f, g, h], _ => exact ⟨_, rfl⟩

/-- What the service starts with is valid and in range, and has an address to listen on, whatever
the arguments and the environment say. -/
theorem usable_of_settingsOf? {asked : Option String} {processors : Nat}
    {arguments : List String} (few : processors < wordLimit)
    (read : Server.settingsOf? (workersFrom asked processors) arguments = some settings) :
    settings.InRange ∧ settings.validate = .ok () ∧
      ∃ address, Server.socketAddress? settings = some address := by
  obtain ⟨above, below⟩ := workersFrom_range asked few
  have started : ∃ port < portLimit,
      settings = { workers := workersFrom asked processors, port } := by
    unfold Server.settingsOf? at read
    split at read
    next =>
      cases read
      exact ⟨9000, by decide, rfl⟩
    next =>
      obtain ⟨port, found, rfl⟩ := Option.map_eq_some_iff.mp read
      exact ⟨port, lt_of_numberBelow? found, rfl⟩
    next => cases read
  obtain ⟨port, small, rfl⟩ := started
  have inRange : InRange { workers := workersFrom asked processors, port } :=
    { inRange_default with port := small, workers := below }
  refine ⟨inRange, validate_eq_ok.mpr fun fault => ?_, inRange.exists_socketAddress⟩
  cases fault with
  | noWorker => exact above.ne'
  | noPatience => exact (by decide : Duration.ofParts 300 0 ≠ .zero)
  | noRoom => exact (by decide : 64 * 1024 ≠ 0)

end Settings

end ParamSweep
