import ParamSweep.Settings.Address

/-!
# Documents in JSON

A reader for the whole grammar of JSON: values of all kinds, blanks between them, and nothing
after the one value of a document. What a document means is left to whoever uses it, so the
reader keeps what its users may or may not accept: numbers as they are written, members in
their order with repetitions, and strings whose escapes form no text.

Reading is bounded by the length of the text: of two calls in a row one takes a character.
-/

namespace ParamSweep

/-- A document. A string is missing its text if an escape in it stands for half a character
only. -/
inductive Document
  | null
  | boolean (value : Bool)
  | number (literal : List Char)
  | string (text : Option String)
  | array (items : List Document)
  | object (members : List (Option String × Document))
  deriving Repr

namespace Document

/-- Drops the blanks that may stand between the parts of a document. -/
def skipBlanks (text : List Char) : List Char :=
  text.dropWhile fun c => c = ' ' || c = '\n' || c = '\t' || c = '\r'

/-! ### Numbers -/

/-- Takes the digits at the front; there must be one. -/
def takeDigits? (text : List Char) : Option (List Char × List Char) :=
  match text.takeWhile Char.isDigit with
  | [] => none
  | digits => some (digits, text.dropWhile Char.isDigit)

/-- Takes the whole part of a number, which has no leading zero. -/
def takeWhole? (text : List Char) : Option (List Char × List Char) := do
  let (digits, rest) ← takeDigits? text
  if digits.head? = some '0' ∧ digits.length ≠ 1 then none else some (digits, rest)

/-- Takes the fraction of a number, if it has one. -/
def takeFraction? : List Char → Option (List Char × List Char)
  | '.' :: text => do
    let (digits, rest) ← takeDigits? text
    return ('.' :: digits, rest)
  | text => some ([], text)

/-- Takes the sign of an exponent, if there is one. -/
def takeSign : List Char → List Char × List Char
  | '+' :: text => (['+'], text)
  | '-' :: text => (['-'], text)
  | text => ([], text)

/-- Takes the exponent of a number, if it has one. -/
def takeExponent? : List Char → Option (List Char × List Char)
  | [] => some ([], [])
  | mark :: text =>
    if mark = 'e' || mark = 'E' then do
      let (sign, text) := takeSign text
      let (digits, rest) ← takeDigits? text
      return (mark :: sign ++ digits, rest)
    else
      some ([], mark :: text)

/-- Takes a number without a sign. -/
def takeUnsigned? (text : List Char) : Option (List Char × List Char) := do
  let (whole, text) ← takeWhole? text
  let (fraction, text) ← takeFraction? text
  let (exponent, text) ← takeExponent? text
  return (whole ++ fraction ++ exponent, text)

/-- Takes a number. -/
def takeNumber? : List Char → Option (List Char × List Char)
  | '-' :: text => (takeUnsigned? text).map fun (literal, rest) => ('-' :: literal, rest)
  | text => takeUnsigned? text

/-! ### Strings -/

/-- A unit of a string: a character, or sixteen bits given by an escape. -/
inductive StringUnit
  | plain (c : Char)
  | escaped (bits : Nat)
  deriving DecidableEq, Repr

/-- The character for the letter of a short escape. -/
def shortEscape? : Char → Option Char
  | '"' => some '"'
  | '\\' => some '\\'
  | '/' => some '/'
  | 'b' => some '\x08'
  | 'f' => some '\x0c'
  | 'n' => some '\n'
  | 'r' => some '\r'
  | 't' => some '\t'
  | _ => none

/-- Takes the units of a string up to its closing quote. -/
def takeUnits? : List Char → Option (List StringUnit × List Char)
  | [] => none
  | '"' :: rest => some ([], rest)
  | '\\' :: 'u' :: first :: second :: third :: fourth :: rest => do
    let bits ← Address.hexNumber? [first, second, third, fourth]
    let (units, rest) ← takeUnits? rest
    return (.escaped bits :: units, rest)
  | '\\' :: letter :: rest => do
    let c ← shortEscape? letter
    let (units, rest) ← takeUnits? rest
    return (.plain c :: units, rest)
  | c :: rest =>
    if c.toNat < 0x20 || c = '\\' then
      none
    else do
      let (units, rest) ← takeUnits? rest
      return (.plain c :: units, rest)

/-- The text of string units, if no escape is half of a pair without the other half. -/
def textOf? : List StringUnit → Option (List Char)
  | [] => some []
  | .plain c :: rest => (textOf? rest).map (c :: ·)
  | [.escaped bits] => if 0xD800 ≤ bits ∧ bits < 0xE000 then none else some [.ofNat bits]
  | .escaped high :: .escaped low :: rest =>
    if 0xD800 ≤ high ∧ high < 0xDC00 then
      if 0xDC00 ≤ low ∧ low < 0xE000 then
        let c := Char.ofNat (0x10000 + (high - 0xD800) * 0x400 + (low - 0xDC00))
        (textOf? rest).map (c :: ·)
      else
        none
    else if 0xDC00 ≤ high ∧ high < 0xE000 then
      none
    else
      (textOf? (.escaped low :: rest)).map (Char.ofNat high :: ·)
  | .escaped bits :: .plain c :: rest =>
    if 0xD800 ≤ bits ∧ bits < 0xE000 then none
    else (textOf? rest).map (Char.ofNat bits :: c :: ·)

/-- Takes a string whose opening quote was taken already. -/
def takeString? (text : List Char) : Option (Option String × List Char) := do
  let (units, rest) ← takeUnits? text
  return ((textOf? units).map String.ofList, rest)

/-! ### Values -/

/-- Takes the key of a member and the colon behind it. -/
def takeKey? (text : List Char) : Option (Option String × List Char) := do
  match skipBlanks text with
  | '"' :: text => do
    let (key, text) ← takeString? text
    match skipBlanks text with
    | ':' :: text => some (key, text)
    | _ => none
  | _ => none

mutual

/-- Takes a value, with blanks in front of it. -/
def takeValue? : (fuel : Nat) → List Char → Option (Document × List Char)
  | 0, _ => none
  | fuel + 1, text =>
    match skipBlanks text with
    | 'n' :: 'u' :: 'l' :: 'l' :: rest => some (.null, rest)
    | 't' :: 'r' :: 'u' :: 'e' :: rest => some (.boolean true, rest)
    | 'f' :: 'a' :: 'l' :: 's' :: 'e' :: rest => some (.boolean false, rest)
    | '"' :: rest => (takeString? rest).map fun (text, rest) => (.string text, rest)
    | '[' :: rest =>
      match skipBlanks rest with
      | ']' :: rest => some (.array [], rest)
      | rest => (takeItems? fuel rest).map fun (items, rest) => (.array items, rest)
    | '{' :: rest =>
      match skipBlanks rest with
      | '}' :: rest => some (.object [], rest)
      | rest => (takeMembers? fuel rest).map fun (members, rest) => (.object members, rest)
    | text => (takeNumber? text).map fun (literal, rest) => (.number literal, rest)

/-- Takes the items of an array up to its closing bracket; there is at least one. -/
def takeItems? : (fuel : Nat) → List Char → Option (List Document × List Char)
  | 0, _ => none
  | fuel + 1, text => do
    let (item, text) ← takeValue? fuel text
    match skipBlanks text with
    | ']' :: rest => some ([item], rest)
    | ',' :: rest => do
      let (items, rest) ← takeItems? fuel rest
      return (item :: items, rest)
    | _ => none

/-- Takes the members of an object up to its closing brace; there is at least one. -/
def takeMembers? : (fuel : Nat) → List Char → Option (List (Option String × Document) × List Char)
  | 0, _ => none
  | fuel + 1, text => do
    let (key, text) ← takeKey? text
    let (value, text) ← takeValue? fuel text
    match skipBlanks text with
    | '}' :: rest => some ([(key, value)], rest)
    | ',' :: rest => do
      let (members, rest) ← takeMembers? fuel rest
      return ((key, value) :: members, rest)
    | _ => none

end

/-- Reads a document. -/
def ofText? (text : String) : Option Document := do
  let characters := text.toList
  let (value, rest) ← takeValue? (2 * characters.length + 2) characters
  if (skipBlanks rest).isEmpty then some value else none

/-! ### What a document can be read as -/

/-- A whole number below a limit, written without sign, point and exponent. -/
def natural? (limit : Nat) : Document → Option Nat
  | number literal =>
    if literal.all Char.isDigit ∧ Number.unitsOf literal < limit then
      some (Number.unitsOf literal)
    else
      none
  | _ => none

/-- A string that is text. -/
def text? : Document → Option String
  | string text => text
  | _ => none

end Document

end ParamSweep
