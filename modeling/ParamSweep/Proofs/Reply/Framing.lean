import ParamSweep.Proofs.Reply.Wording

/-!
# Lines that a client can read

A client cuts a line at its semicolons. The first field and the number of fields tell it what kind
of reply it has before it, and for a fault the brackets set the code apart from the sentence. That
this works for all replies is no matter of luck: no field holds a semicolon, a code holds no
bracket, and no reply with more or fewer faults than one is ever made.
-/

namespace ParamSweep

open Text (Plain)

/-- What a client makes of a line. -/
inductive Received
  | acknowledged
  | success (seconds result : List Char)
  | failure (code sentence : List Char)
  deriving DecidableEq, Repr

namespace Received

/-- Takes the text of a fault apart: a code in round brackets, a blank, and a sentence. -/
def ofTag? : List Char → Option Received
  | '(' :: rest =>
    match rest.dropWhile (· ≠ ')') with
    | ')' :: ' ' :: sentence => some (.failure (rest.takeWhile (· ≠ ')')) sentence)
    | _ => none
  | _ => none

/-- Reads the fields of a line. -/
def ofFields? : List (List Char) → Option Received
  | [['O', 'K']] => some .acknowledged
  | [['O', 'K'], seconds, result] => some (.success seconds result)
  | [['E', 'R', 'R'], tag] => ofTag? tag
  | _ => none

/-- Reads a line. -/
def ofLine? (line : List Char) : Option Received := ofFields? (Text.pieces ';' line)

/-- The text of a fault can be taken apart again. -/
theorem ofTag?_message (fault : Fault) :
    ofTag? fault.message.toList = some (.failure fault.code.toList fault.sentence.toList) := by
  have inside : fault.code.toList.all (· ≠ ')') = true := by
    cases fault <;> rw [Fault.code] <;> decide
  rw [List.all_eq_true] at inside
  rw [Fault.toList_message]
  simp only [ofTag?, List.dropWhile_append_of_pos inside, List.takeWhile_append_of_pos inside]
  simp

end Received

/-- The text of a time: seconds with three places. If the time is not absurd they are its whole
milliseconds. -/
structure Duration.Form (elapsed : Duration) (text : List Char) : Prop where
  places : Number.HasPlaces 3 text
  exact : elapsed.milliseconds < 2 ^ 52 → text = Number.pointed elapsed.milliseconds 3

/-- The text of an answer: a whole number, or a float with six places. -/
def Answer.Form : Answer → List Char → Prop
  | whole count, text => text = Number.digits count
  | decimal _, text => Number.Fixed 6 text

/-- Every answer is written in its form. -/
theorem Answer.form_text (answer : Answer) : answer.Form answer.text.toList := by
  cases answer with
  | whole count => exact String.toList_ofList
  | decimal value => exact Number.fixed_form value (by decide)

namespace Reply

/-- So is every time that can be stored. -/
theorem form_elapsedText {elapsed : Duration} (stored : elapsed.nanoseconds < Duration.limit) :
    elapsed.Form (elapsedText elapsed).toList := by
  refine ⟨Number.hasPlaces_thousandths ?_, Number.fixed_thousandths⟩
  have limit : Duration.limit = 2 ^ 64 * 1000000000 := rfl
  rw [Duration.milliseconds]
  omega

/-- The fields of a reply in its line, and what they say to a client. -/
inductive Says : Reply → List (List Char) → Received → Prop
  | acknowledged : Says .acknowledged ["OK".toList] .acknowledged
  | success {elapsed : Duration} {answer : Answer} {seconds result : List Char}
      (time : elapsed.Form seconds) (form : answer.Form result) :
      Says (.success elapsed answer) ["OK".toList, seconds, result] (.success seconds result)
  | failure (fault : Fault) :
      Says (.failure [fault])
        ["ERR".toList, '(' :: (fault.code.toList ++ ')' :: ' ' :: fault.sentence.toList)]
        (.failure fault.code.toList fault.sentence.toList)

/-- A reply is one line, its fields are those that its kind has, and a client can tell them. -/
structure Framed (reply : Reply) : Prop where
  line : '\n' ∉ reply.text.toList ∧ '\r' ∉ reply.text.toList
  fields : ∃ received, Says reply (Text.pieces ';' reply.text.toList) received ∧
    Received.ofLine? reply.text.toList = some received

/-- A line is the fields of its reply with semicolons between them. -/
theorem toList_text (reply : Reply) :
    reply.text.toList = [';'].intercalate (reply.fields.map String.toList) := by
  rw [text, String.toList_intercalate]
  rfl

/-- The pieces of a line are the fields of the reply, if none of them holds a semicolon. -/
theorem pieces_text {reply : Reply} (plain : ∀ field ∈ reply.fields, Plain field.toList) :
    Text.pieces ';' reply.text.toList = reply.fields.map String.toList := by
  have some : reply.fields.map String.toList ≠ [] := by cases reply <;> exact List.cons_ne_nil _ _
  refine (Text.pieces_eq_iff some).mpr ⟨fun piece member => ?_, reply.toList_text⟩
  obtain ⟨field, known, rfl⟩ := List.mem_map.mp member
  exact (plain field known).not_mem.2.2

/-- A line holds no more than its fields and the semicolons between them. -/
theorem not_mem_text {reply : Reply} {c : Char} (other : c ≠ ';')
    (apart : ∀ field ∈ reply.fields, c ∉ field.toList) : c ∉ reply.text.toList := by
  rw [toList_text]
  exact Text.not_mem_intercalate other (List.forall_mem_map.mpr apart)

/-- It is enough that no field holds a separator, and that the fields can be told. -/
theorem Framed.of_fields {reply : Reply} (plain : ∀ field ∈ reply.fields, Plain field.toList)
    {received : Received} (told : Says reply (reply.fields.map String.toList) received)
    (read : Received.ofFields? (reply.fields.map String.toList) = some received) :
    reply.Framed := by
  refine ⟨⟨not_mem_text (by decide) fun field member => (plain field member).not_mem.1,
    not_mem_text (by decide) fun field member => (plain field member).not_mem.2.1⟩,
    received, ?_, ?_⟩
  · rwa [pieces_text plain]
  · rwa [Received.ofLine?, pieces_text plain]

/-- An acknowledgement is framed. -/
theorem framed_acknowledged : Framed .acknowledged := by
  refine .of_fields (fun field member => ?_) .acknowledged rfl
  obtain rfl := List.mem_singleton.mp member
  decide

/-- A success is framed, whatever its answer is. -/
theorem framed_success {elapsed : Duration} (stored : elapsed.nanoseconds < Duration.limit)
    (answer : Answer) : Framed (.success elapsed answer) := by
  have form := form_elapsedText stored
  refine .of_fields ?_ (.success form answer.form_text) rfl
  simp only [fields, List.forall_mem_cons, List.not_mem_nil, false_imp_iff, implies_true, and_true]
  exact ⟨by decide, Number.plain_of_isGlyph form.places.isGlyph,
    Number.plain_of_isGlyph answer.isGlyph_text⟩

/-- A failure is framed if its sentence is plain. -/
theorem framed_ofFault {fault : Fault} (plain : fault.IsPlain) : Framed (ofFault fault) := by
  have told := Says.failure fault
  rw [← fault.toList_message] at told
  refine .of_fields ?_ told (Received.ofTag?_message fault)
  simp only [ofFault, fields, List.map_cons, List.map_nil, List.forall_mem_cons, List.not_mem_nil,
    false_imp_iff, implies_true, and_true]
  exact ⟨by decide, plain.message⟩

end Reply

end ParamSweep
