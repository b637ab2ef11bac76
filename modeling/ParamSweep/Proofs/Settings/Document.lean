import Mathlib.Data.List.TakeWhile
import ParamSweep.Settings.Document

/-!
# What a text reads as

A document is taken from the front of a text, and what is left is the rest of it. How it is taken
apart is stated here without a bound: a value begins with its first character behind blanks, an
array and an object go on with what stands between their brackets, and there each item is behind
the one before.

The reader has a bound, and it is of no consequence. Whatever is taken leaves less than there was,
and between two calls on the same text one takes a character. So twice the length of the text is
enough, and reading yields exactly what the text reads as.
-/

namespace ParamSweep.Document

section

variable {text rest : List Char}

/-! ### Numbers -/

/-- Digits are taken as they stand, and there is one. -/
theorem takeDigits?_eq_some {digits : List Char} (taken : takeDigits? text = some (digits, rest)) :
    text = digits ++ rest ∧ digits.head?.any Char.isDigit = true := by
  unfold takeDigits? at taken
  split at taken
  next => cases taken
  next some =>
    cases taken
    refine ⟨List.takeWhile_append_dropWhile.symm, ?_⟩
    cases text with
    | nil => exact absurd rfl some
    | cons c others =>
      cases digit : c.isDigit with
      | false => exact absurd (by simp [digit]) some
      | true => simp [digit]

/-- The whole part of a number is at the start of the text and begins with a digit. -/
theorem takeWhole?_eq_some {digits : List Char} (taken : takeWhole? text = some (digits, rest)) :
    text = digits ++ rest ∧ digits.head?.any Char.isDigit = true := by
  simp only [takeWhole?, bind, Option.bind_eq_some_iff, Prod.exists] at taken
  obtain ⟨run, behind, found, taken⟩ := taken
  split_ifs at taken
  cases taken
  exact takeDigits?_eq_some found

/-- The fraction of a number is what was taken from the text. -/
theorem takeFraction?_eq_some {fraction : List Char}
    (taken : takeFraction? text = some (fraction, rest)) : text = fraction ++ rest := by
  unfold takeFraction? at taken
  split at taken
  next behind =>
    simp only [bind, Option.bind_eq_some_iff, Prod.exists] at taken
    obtain ⟨digits, others, found, taken⟩ := taken
    cases taken
    rw [(takeDigits?_eq_some found).1, List.cons_append]
  next =>
    cases taken
    rfl

/-- A sign that is taken, or none, stands before the rest. -/
theorem eq_takeSign_append (text : List Char) : text = (takeSign text).1 ++ (takeSign text).2 := by
  unfold takeSign
  split <;> rfl

/-- The exponent of a number is what was taken from the text. -/
theorem takeExponent?_eq_some {exponent : List Char}
    (taken : takeExponent? text = some (exponent, rest)) : text = exponent ++ rest := by
  unfold takeExponent? at taken
  split at taken
  next =>
    cases taken
    rfl
  next mark behind =>
    split_ifs at taken
    · simp only [bind, Option.bind_eq_some_iff, Prod.exists] at taken
      obtain ⟨digits, others, found, taken⟩ := taken
      cases taken
      have parts := eq_takeSign_append behind
      rw [(takeDigits?_eq_some found).1] at parts
      exact (congrArg (mark :: ·) parts).trans (by simp)
    · cases taken
      rfl

/-- So is a number without its sign, and it begins with a digit. -/
theorem takeUnsigned?_eq_some {literal : List Char}
    (taken : takeUnsigned? text = some (literal, rest)) :
    text = literal ++ rest ∧ literal.head?.any Char.isDigit = true := by
  simp only [takeUnsigned?, bind, Option.bind_eq_some_iff, Prod.exists] at taken
  obtain ⟨whole, behindWhole, foundWhole, fraction, behindFraction, foundFraction, exponent,
    behindExponent, foundExponent, taken⟩ := taken
  cases taken
  obtain ⟨parts, begins⟩ := takeWhole?_eq_some foundWhole
  rw [parts, takeFraction?_eq_some foundFraction, takeExponent?_eq_some foundExponent]
  refine ⟨by simp, ?_⟩
  cases whole with
  | nil => cases begins
  | cons c whole => exact begins

/-- A number is taken as it stands, and begins with a minus sign or a digit. -/
theorem takeNumber?_eq_some {literal : List Char}
    (taken : takeNumber? text = some (literal, rest)) :
    text = literal ++ rest ∧ literal.head?.any (fun c => c = '-' || c.isDigit) = true := by
  unfold takeNumber? at taken
  split at taken
  next behind =>
    obtain ⟨⟨unsigned, others⟩, found, taken⟩ := Option.map_eq_some_iff.mp taken
    cases taken
    exact ⟨congrArg ('-' :: ·) (takeUnsigned?_eq_some found).1, rfl⟩
  next =>
    obtain ⟨parts, begins⟩ := takeUnsigned?_eq_some taken
    refine ⟨parts, ?_⟩
    cases literal with
    | nil => cases begins
    | cons c literal =>
      have digit : c.isDigit = true := begins
      simp [digit]

/-! ### What is left -/

/-- Skipping blanks makes no text longer. -/
theorem length_skipBlanks_le (text : List Char) : (skipBlanks text).length ≤ text.length :=
  (List.dropWhile_suffix _).length_le

/-- A number takes something of the text. -/
theorem length_lt_of_takeNumber? {literal : List Char}
    (taken : takeNumber? text = some (literal, rest)) : rest.length < text.length := by
  obtain ⟨rfl, begins⟩ := takeNumber?_eq_some taken
  cases literal with
  | nil => cases begins
  | cons c literal =>
    rw [List.length_append, List.length_cons]
    omega

/-- The closing quote at least is taken with the units of a string. -/
theorem length_lt_of_takeUnits? {units : List StringUnit}
    (taken : takeUnits? text = some (units, rest)) : rest.length < text.length := by
  fun_induction takeUnits? text generalizing units rest with
  | case1 => cases taken
  | case2 behind =>
    cases taken
    exact Nat.lt_succ_self _
  | case3 first second third fourth behind inductionHypothesis =>
    simp only [bind, Option.bind_eq_some_iff, Prod.exists] at taken
    obtain ⟨bits, -, others, left, found, taken⟩ := taken
    cases taken
    have less := inductionHypothesis found
    simp only [List.length_cons]
    omega
  | case4 letter behind other inductionHypothesis =>
    simp only [bind, Option.bind_eq_some_iff, Prod.exists] at taken
    obtain ⟨c, -, others, left, found, taken⟩ := taken
    cases taken
    have less := inductionHypothesis found
    simp only [List.length_cons]
    omega
  | case5 => cases taken
  | case6 c behind _ _ _ ordinary inductionHypothesis =>
    simp only [bind, Option.bind_eq_some_iff, Prod.exists] at taken
    obtain ⟨others, left, found, taken⟩ := taken
    cases taken
    exact (inductionHypothesis found).trans (Nat.lt_succ_self _)

/-- A string takes something of the text: its quotes at least. -/
theorem length_lt_of_takeString? {value : Option String}
    (taken : takeString? text = some (value, rest)) : rest.length < text.length := by
  simp only [takeString?, bind, Option.bind_eq_some_iff, Prod.exists] at taken
  obtain ⟨units, behind, found, taken⟩ := taken
  cases taken
  exact length_lt_of_takeUnits? found

/-- Two quotes and a colon at least are taken with a key. -/
theorem length_lt_of_takeKey? {key : Option String} (taken : takeKey? text = some (key, rest)) :
    rest.length < text.length := by
  have blanks := length_skipBlanks_le text
  unfold takeKey? at taken
  split at taken
  next behind begins =>
    simp only [bind, Option.bind_eq_some_iff, Prod.exists] at taken
    obtain ⟨name, left, found, taken⟩ := taken
    have less := length_lt_of_takeString? found
    have more := length_skipBlanks_le left
    split at taken
    next others colon =>
      cases taken
      rw [begins, List.length_cons] at blanks
      rw [colon, List.length_cons] at more
      omega
    next => cases taken
  next => cases taken

end

/-! ### Values -/

/-- A value, or what stands between the brackets of an array or the braces of an object. -/
inductive Part
  | value
  | items
  | members

/-- A text begins with a document, and so much is left of it. The items of an array and the members
of an object are taken with the bracket that closes them, and there is at least one. -/
inductive Takes : Part → (text : List Char) → Document → (rest : List Char) → Prop
  | null {text rest : List Char}
      (begins : skipBlanks text = 'n' :: 'u' :: 'l' :: 'l' :: rest) : Takes .value text null rest
  | yes {text rest : List Char} (begins : skipBlanks text = 't' :: 'r' :: 'u' :: 'e' :: rest) :
      Takes .value text (boolean true) rest
  | no {text rest : List Char}
      (begins : skipBlanks text = 'f' :: 'a' :: 'l' :: 's' :: 'e' :: rest) :
      Takes .value text (boolean false) rest
  | string {text behind rest : List Char} {value : Option String}
      (begins : skipBlanks text = '"' :: behind)
      (taken : takeString? behind = some (value, rest)) : Takes .value text (string value) rest
  | number {text rest literal : List Char}
      (taken : takeNumber? (skipBlanks text) = some (literal, rest)) :
      Takes .value text (number literal) rest
  | emptyArray {text behind rest : List Char} (begins : skipBlanks text = '[' :: behind)
      (ends : skipBlanks behind = ']' :: rest) : Takes .value text (array []) rest
  | array {text behind rest : List Char} {items : List Document}
      (begins : skipBlanks text = '[' :: behind)
      (goesOn : (skipBlanks behind).head? ≠ some ']')
      (inside : Takes .items (skipBlanks behind) (array items) rest) :
      Takes .value text (array items) rest
  | emptyObject {text behind rest : List Char} (begins : skipBlanks text = '{' :: behind)
      (ends : skipBlanks behind = '}' :: rest) : Takes .value text (object []) rest
  | object {text behind rest : List Char} {members : List (Option String × Document)}
      (begins : skipBlanks text = '{' :: behind)
      (goesOn : (skipBlanks behind).head? ≠ some '}')
      (inside : Takes .members (skipBlanks behind) (object members) rest) :
      Takes .value text (object members) rest
  | lastItem {text behind rest : List Char} {item : Document}
      (first : Takes .value text item behind) (ends : skipBlanks behind = ']' :: rest) :
      Takes .items text (array [item]) rest
  | item {text behind others rest : List Char} {item : Document} {items : List Document}
      (first : Takes .value text item behind) (goesOn : skipBlanks behind = ',' :: others)
      (further : Takes .items others (array items) rest) :
      Takes .items text (array (item :: items)) rest
  | lastMember {text afterKey behind rest : List Char} {key : Option String} {value : Document}
      (named : takeKey? text = some (key, afterKey)) (first : Takes .value afterKey value behind)
      (ends : skipBlanks behind = '}' :: rest) : Takes .members text (object [(key, value)]) rest
  | member {text afterKey behind others rest : List Char} {key : Option String} {value : Document}
      {members : List (Option String × Document)}
      (named : takeKey? text = some (key, afterKey)) (first : Takes .value afterKey value behind)
      (goesOn : skipBlanks behind = ',' :: others)
      (further : Takes .members others (object members) rest) :
      Takes .members text (object ((key, value) :: members)) rest

section

variable {part : Part} {text rest : List Char} {document : Document}

/-- Whatever is taken leaves less than there was. -/
theorem Takes.length_lt (takes : Takes part text document rest) : rest.length < text.length := by
  induction takes with
  | @null text _ begins | @yes text _ begins | @no text _ begins =>
    have blanks := length_skipBlanks_le text
    simp only [begins, List.length_cons] at blanks
    omega
  | @string text _ _ _ begins taken =>
    have blanks := length_skipBlanks_le text
    have less := length_lt_of_takeString? taken
    rw [begins, List.length_cons] at blanks
    omega
  | number taken => exact (length_lt_of_takeNumber? taken).trans_le (length_skipBlanks_le _)
  | @emptyArray text behind _ begins ends | @emptyObject text behind _ begins ends =>
    have blanks := length_skipBlanks_le text
    have more := length_skipBlanks_le behind
    rw [begins, List.length_cons] at blanks
    rw [ends, List.length_cons] at more
    omega
  | @array text behind _ _ begins _ _ less | @object text behind _ _ begins _ _ less =>
    have blanks := length_skipBlanks_le text
    have more := length_skipBlanks_le behind
    rw [begins, List.length_cons] at blanks
    omega
  | @lastItem _ behind _ _ _ ends less =>
    have more := length_skipBlanks_le behind
    rw [ends, List.length_cons] at more
    omega
  | @item _ behind _ _ _ _ _ goesOn _ less further =>
    have more := length_skipBlanks_le behind
    rw [goesOn, List.length_cons] at more
    omega
  | @lastMember _ _ behind _ _ _ named _ ends less =>
    have named := length_lt_of_takeKey? named
    have more := length_skipBlanks_le behind
    rw [ends, List.length_cons] at more
    omega
  | @member _ _ behind _ _ _ _ _ named _ goesOn _ less further =>
    have named := length_lt_of_takeKey? named
    have more := length_skipBlanks_le behind
    rw [goesOn, List.length_cons] at more
    omega

/-! ### The reader -/

/-- The reader of a value or of what stands between brackets. -/
def take? : Part → (fuel : Nat) → List Char → Option (Document × List Char)
  | .value, fuel, text => takeValue? fuel text
  | .items, fuel, text => (takeItems? fuel text).map fun (items, rest) => (.array items, rest)
  | .members, fuel, text =>
    (takeMembers? fuel text).map fun (members, rest) => (.object members, rest)

/-- Taking the items of an array is taking a list of documents. -/
theorem take?_items {fuel : Nat} {items : List Document} :
    take? .items fuel text = some (array items, rest) ↔
      takeItems? fuel text = some (items, rest) := by
  cases found : takeItems? fuel text <;> simp [take?, found, Prod.ext_iff]

/-- Taking the members of an object is taking a list of pairs. -/
theorem take?_members {fuel : Nat} {members : List (Option String × Document)} :
    take? .members fuel text = some (object members, rest) ↔
      takeMembers? fuel text = some (members, rest) := by
  cases found : takeMembers? fuel text <;> simp [take?, found, Prod.ext_iff]

/-! ### Nothing else is read -/

/-- The first character of a text is not one that it cannot begin with. -/
theorem head?_ne_some {c : Char} (apart : ∀ others, text = c :: others → False) :
    text.head? ≠ some c := by
  intro begins
  obtain ⟨others, shape⟩ := List.head?_eq_some_iff.mp begins
  exact apart others shape

/-- The reader with a bound reads nothing but what the text reads as. -/
def IsSound (fuel : Nat) : Prop :=
  ∀ {part : Part} {text rest : List Char} {document : Document},
    take? part fuel text = some (document, rest) → Takes part text document rest

/-- A value is one of those that its first character allows. -/
theorem IsSound.value {fuel : Nat} (sound : IsSound fuel)
    (taken : takeValue? (fuel + 1) text = some (document, rest)) :
    Takes .value text document rest := by
  rw [takeValue?] at taken
  split at taken
  next begins =>
    cases taken
    exact .null begins
  next begins =>
    cases taken
    exact .yes begins
  next begins =>
    cases taken
    exact .no begins
  next begins =>
    obtain ⟨⟨value, left⟩, found, same⟩ := Option.map_eq_some_iff.mp taken
    cases same
    exact .string begins found
  next behind begins =>
    split at taken
    next ends =>
      cases taken
      exact .emptyArray begins ends
    next goesOn =>
      obtain ⟨⟨items, left⟩, found, same⟩ := Option.map_eq_some_iff.mp taken
      cases same
      exact .array begins (head?_ne_some goesOn) (sound (take?_items.mpr found))
  next behind begins =>
    split at taken
    next ends =>
      cases taken
      exact .emptyObject begins ends
    next goesOn =>
      obtain ⟨⟨members, left⟩, found, same⟩ := Option.map_eq_some_iff.mp taken
      cases same
      exact .object begins (head?_ne_some goesOn) (sound (take?_members.mpr found))
  next =>
    obtain ⟨⟨literal, left⟩, found, same⟩ := Option.map_eq_some_iff.mp taken
    cases same
    exact .number found

/-- Items are a value, and behind it the closing bracket or a comma and further items. -/
theorem IsSound.items {fuel : Nat} {items : List Document} (sound : IsSound fuel)
    (taken : takeItems? (fuel + 1) text = some (items, rest)) :
    Takes .items text (array items) rest := by
  simp only [takeItems?, bind, Option.bind_eq_some_iff, Prod.exists] at taken
  obtain ⟨item, behind, found, taken⟩ := taken
  have first : Takes .value text item behind := sound found
  split at taken
  next ends =>
    cases taken
    exact .lastItem first ends
  next goesOn =>
    simp only [Option.bind_eq_some_iff, Prod.exists] at taken
    obtain ⟨others, left, further, taken⟩ := taken
    cases taken
    exact .item first goesOn (sound (take?_items.mpr further))
  next => cases taken

/-- Members are a key with its value, and behind it the closing brace or a comma and further
members. -/
theorem IsSound.members {fuel : Nat} {members : List (Option String × Document)}
    (sound : IsSound fuel) (taken : takeMembers? (fuel + 1) text = some (members, rest)) :
    Takes .members text (object members) rest := by
  simp only [takeMembers?, bind, Option.bind_eq_some_iff, Prod.exists] at taken
  obtain ⟨key, afterKey, named, value, behind, found, taken⟩ := taken
  have first : Takes .value afterKey value behind := sound found
  split at taken
  next ends =>
    cases taken
    exact .lastMember named first ends
  next goesOn =>
    simp only [Option.bind_eq_some_iff, Prod.exists] at taken
    obtain ⟨others, left, further, taken⟩ := taken
    cases taken
    exact .member named first goesOn (sound (take?_members.mpr further))
  next => cases taken

/-- The reader reads nothing else, whatever its bound. -/
theorem isSound (fuel : Nat) : IsSound fuel := by
  induction fuel with
  | zero =>
    intro part text rest document taken
    cases part <;> simp [take?, takeValue?, takeItems?, takeMembers?] at taken
  | succ fuel sound =>
    intro part text rest document taken
    cases part with
    | value => exact sound.value taken
    | items =>
      obtain ⟨⟨items, left⟩, found, same⟩ := Option.map_eq_some_iff.mp taken
      cases same
      exact sound.items found
    | members =>
      obtain ⟨⟨members, left⟩, found, same⟩ := Option.map_eq_some_iff.mp taken
      cases same
      exact sound.members found

/-! ### Everything is read -/

/-- How often the reader of a part may be called on a text of some length. Each call takes a
character or calls the reader of a value, which takes one. -/
def Part.calls : Part → (length : Nat) → Nat
  | value, length => 2 * length
  | items, length | members, length => 2 * length + 1

/-- A number begins with a digit or with a minus sign. -/
theorem begins_of_takeNumber? {c : Char} {others literal : List Char}
    (taken : takeNumber? (c :: others) = some (literal, rest)) :
    (c = '-' || c.isDigit) = true := by
  obtain ⟨parts, begins⟩ := takeNumber?_eq_some taken
  cases literal with
  | nil => cases begins
  | cons first literal =>
    obtain ⟨rfl, -⟩ := List.cons.inj parts
    exact begins

/-- No other value begins as a number does. -/
theorem takeValue?_number {fuel : Nat} {literal : List Char}
    (taken : takeNumber? (skipBlanks text) = some (literal, rest)) :
    takeValue? (fuel + 1) text = some (number literal, rest) := by
  rw [takeValue?]
  split
  case h_7 => rw [taken, Option.map_some]
  all_goals
    next begins =>
      rw [begins] at taken
      exact absurd (begins_of_takeNumber? taken) (by decide)

/-- An array goes on with its closing bracket or with items. -/
theorem takeValue?_array {fuel : Nat} {behind : List Char}
    (begins : skipBlanks text = '[' :: behind) :
    takeValue? (fuel + 1) text =
      match skipBlanks behind with
      | ']' :: rest => some (array [], rest)
      | rest => (takeItems? fuel rest).map fun (items, rest) => (array items, rest) := by
  rw [takeValue?, begins]
  rfl

/-- A bracket with something behind it that does not close it opens a list of items. -/
theorem takeValue?_items {fuel : Nat} {behind : List Char}
    (begins : skipBlanks text = '[' :: behind) (goesOn : (skipBlanks behind).head? ≠ some ']') :
    takeValue? (fuel + 1) text =
      (takeItems? fuel (skipBlanks behind)).map fun (items, rest) => (array items, rest) := by
  rw [takeValue?_array begins]
  split
  next ends => exact absurd (congrArg List.head? ends) goesOn
  next => rfl

/-- An object goes on with its closing brace or with members. -/
theorem takeValue?_object {fuel : Nat} {behind : List Char}
    (begins : skipBlanks text = '{' :: behind) :
    takeValue? (fuel + 1) text =
      match skipBlanks behind with
      | '}' :: rest => some (object [], rest)
      | rest => (takeMembers? fuel rest).map fun (members, rest) => (object members, rest) := by
  rw [takeValue?, begins]
  rfl

/-- A brace with something behind it that does not close it opens a list of members. -/
theorem takeValue?_members {fuel : Nat} {behind : List Char}
    (begins : skipBlanks text = '{' :: behind) (goesOn : (skipBlanks behind).head? ≠ some '}') :
    takeValue? (fuel + 1) text =
      (takeMembers? fuel (skipBlanks behind)).map fun (members, rest) =>
        (object members, rest) := by
  rw [takeValue?_object begins]
  split
  next ends => exact absurd (congrArg List.head? ends) goesOn
  next => rfl

/-- The reader with a bound reads whatever it may be called often enough for. -/
def IsComplete (fuel : Nat) : Prop :=
  ∀ {part : Part} {text rest : List Char} {document : Document},
    Takes part text document rest → part.calls text.length ≤ fuel →
      take? part fuel text = some (document, rest)

/-- A bracket or a brace is a character, and gives away the two calls that come with it: one is for
the reader of what is inside. -/
theorem calls_inside {c : Char} {behind : List Char} {fuel : Nat}
    (begins : skipBlanks text = c :: behind)
    (enough : Part.value.calls text.length ≤ fuel + 1) :
    2 * (skipBlanks behind).length + 1 ≤ fuel := by
  have blanks := length_skipBlanks_le text
  have more := length_skipBlanks_le behind
  simp only [begins, Part.calls, List.length_cons] at blanks enough
  omega

/-- What is behind a comma is shorter than the text was. -/
theorem calls_further {behind others : List Char} {fuel : Nat}
    (shorter : behind.length < text.length) (goesOn : skipBlanks behind = ',' :: others)
    (enough : 2 * text.length + 1 ≤ fuel + 1) : 2 * others.length + 1 ≤ fuel := by
  have blanks := length_skipBlanks_le behind
  simp only [goesOn, List.length_cons] at blanks
  omega

/-- A value that is there is read. -/
theorem IsComplete.value {fuel : Nat} (complete : IsComplete fuel)
    (takes : Takes .value text document rest)
    (enough : Part.value.calls text.length ≤ fuel + 1) :
    takeValue? (fuel + 1) text = some (document, rest) := by
  cases takes with
  | null begins | yes begins | no begins =>
    rw [takeValue?, begins]
    rfl
  | string begins taken =>
    rw [takeValue?, begins]
    exact congrArg (Option.map _) taken
  | number taken => exact takeValue?_number taken
  | emptyArray begins ends =>
    rw [takeValue?_array begins, ends]
    rfl
  | emptyObject begins ends =>
    rw [takeValue?_object begins, ends]
    rfl
  | array begins goesOn inside =>
    have found := take?_items.mp (complete inside (calls_inside begins enough))
    rw [takeValue?_items begins goesOn, found, Option.map_some]
  | object begins goesOn inside =>
    have found := take?_members.mp (complete inside (calls_inside begins enough))
    rw [takeValue?_members begins goesOn, found, Option.map_some]

/-- Items that are there are read. -/
theorem IsComplete.items {fuel : Nat} {items : List Document} (complete : IsComplete fuel)
    (takes : Takes .items text (array items) rest)
    (enough : Part.items.calls text.length ≤ fuel + 1) :
    takeItems? (fuel + 1) text = some (items, rest) := by
  cases takes with
  | @lastItem _ behind _ item first ends =>
    have found : takeValue? fuel text = some (item, behind) :=
      complete first (Nat.le_of_succ_le_succ enough)
    simp [takeItems?, found, ends]
  | @item _ behind others _ item items first goesOn further =>
    have found : takeValue? fuel text = some (item, behind) :=
      complete first (Nat.le_of_succ_le_succ enough)
    have others := complete further (calls_further first.length_lt goesOn enough)
    simp [takeItems?, found, goesOn, take?_items.mp others]

/-- Members that are there are read. -/
theorem IsComplete.members {fuel : Nat} {members : List (Option String × Document)}
    (complete : IsComplete fuel) (takes : Takes .members text (object members) rest)
    (enough : Part.members.calls text.length ≤ fuel + 1) :
    takeMembers? (fuel + 1) text = some (members, rest) := by
  have value {afterKey behind : List Char} {key : Option String} {value : Document}
      (named : takeKey? text = some (key, afterKey))
      (first : Takes .value afterKey value behind) :
      takeValue? fuel afterKey = some (value, behind) := by
    have less := length_lt_of_takeKey? named
    exact complete first (by simp only [Part.calls] at enough ⊢; omega)
  cases takes with
  | lastMember named first ends => simp [takeMembers?, named, value named first, ends]
  | member named first goesOn further =>
    have shorter := first.length_lt.trans (length_lt_of_takeKey? named)
    have others := complete further (calls_further shorter goesOn enough)
    simp [takeMembers?, named, value named first, goesOn, take?_members.mp others]

/-- The reader reads all that is to be read, if it may be called often enough.

Proof: by induction on the bound. Where there is something to take, the reader may be called. -/
theorem isComplete (fuel : Nat) : IsComplete fuel := by
  induction fuel with
  | zero =>
    intro part text rest document takes enough
    have some := takes.length_lt
    cases part <;> simp only [Part.calls] at enough <;> omega
  | succ fuel complete =>
    intro part text rest document takes enough
    cases part with
    | value => exact complete.value takes enough
    | items =>
      obtain ⟨items, rfl⟩ : ∃ items, document = array items := by cases takes <;> exact ⟨_, rfl⟩
      exact take?_items.mpr (complete.items takes enough)
    | members =>
      obtain ⟨members, rfl⟩ : ∃ members, document = object members := by
        cases takes <;> exact ⟨_, rfl⟩
      exact take?_members.mpr (complete.members takes enough)

/-- A text reads as a document exactly if the document can be taken from it and blanks are left. The
bound of the reader does not show. -/
theorem ofText?_eq_some {text : String} :
    ofText? text = some document ↔
      ∃ rest, Takes .value text.toList document rest ∧ skipBlanks rest = [] := by
  have reads (rest : List Char) : take? .value (2 * text.toList.length + 2) text.toList =
      some (document, rest) ↔ Takes .value text.toList document rest :=
    ⟨fun taken => isSound _ taken, fun takes => isComplete _ takes (Nat.le_add_right _ 2)⟩
  simp only [ofText?, bind, Option.bind_eq_some_iff, Prod.exists]
  constructor
  · rintro ⟨value, rest, found, kept⟩
    split at kept
    next none =>
      cases kept
      exact ⟨rest, (reads rest).mp found, List.isEmpty_iff.mp none⟩
    next => cases kept
  · rintro ⟨rest, takes, none⟩
    exact ⟨document, rest, (reads rest).mpr takes, if_pos (List.isEmpty_iff.mpr none)⟩

end

end ParamSweep.Document
