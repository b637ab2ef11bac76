import ParamSweep.Dispatch
import ParamSweep.Proofs.Request.Commands

/-!
# Separators at the end of a message and of its declarations

Empty fields at the end of a message and empty declarations at the end of its second field do not
count, so a client may end either with as many separators as it likes. The two cuts are independent:
semicolons add empty fields behind all others, while commas make the second field longer and leave
the fields around it as they were. An empty second field is the exception: it does not count where
nothing stands behind it, and a comma makes it count.
-/

namespace ParamSweep

namespace Text

/-- Empty pieces at the end are dropped from behind a piece that is not empty. -/
theorem dropTrailingEmpty_cons_cons (first : List Char) {second : List Char}
    (rest : List (List Char)) (filled : second ≠ []) :
    dropTrailingEmpty (first :: second :: rest) = first :: second :: dropTrailingEmpty rest := by
  simp [dropTrailingEmpty_cons, filled]

end Text

namespace Sweep

/-- A message is read by its fields alone. -/
theorem read_congr {one other : String}
    (same : Text.fields ';' one.toList = Text.fields ';' other.toList) : read one = read other := by
  simp only [read, same]

/-- Of the second field of a message only the domains that it declares are looked at. -/
theorem read_congr_declarations {one other : String} {command field field' : List Char}
    {others : List (List Char)} (cut : Text.fields ';' one.toList = command :: field :: others)
    (cut' : Text.fields ';' other.toList = command :: field' :: others)
    (same : readDomains field = readDomains field') : read one = read other := by
  simp only [read, cut, cut', List.headD_cons, List.tail_cons, same]

/-- Commas behind the declarations declare nothing. -/
theorem readDomains_append_replicate (field : List Char) (count : Nat) :
    readDomains (field ++ List.replicate count ',') = readDomains field := by
  simp only [readDomains, Text.fields_append_replicate]

end Sweep

namespace Request

open Text (fields pieces)

/-- Two messages that make the same request: neither the command nor the kind nor what is read from
them tells them apart. -/
structure Alike (one other : String) : Prop where
  command : (ofMessage one).command = (ofMessage other).command
  kind : (ofMessage one).kind = (ofMessage other).kind
  sweep : Sweep.read one = Sweep.read other

variable {one other message : String}

/-- The command of a message is the first of its fields. -/
theorem command_ofMessage (message : String) :
    (ofMessage message).command = String.ofList ((fields ';' message.toList).headD []) := by
  rw [Text.headD_fields]
  rfl

/-- The first field decides the command and the kind of a request. -/
theorem Alike.of_fields
    (first : (fields ';' one.toList).headD [] = (fields ';' other.toList).headD [])
    (sweep : Sweep.read one = Sweep.read other) : Alike one other := by
  have command : (ofMessage one).command = (ofMessage other).command := by
    rw [command_ofMessage, command_ofMessage, first]
  exact ⟨command, congrArg RequestKind.ofCommand command, sweep⟩

/-- Semicolons at the end of a message do not change the request. -/
theorem alike_append_semicolons (message : String) (count : Nat) :
    Alike (message ++ String.ofList (List.replicate count ';')) message := by
  have same : fields ';' (message ++ String.ofList (List.replicate count ';')).toList =
      fields ';' message.toList := by
    rw [String.toList_append, String.toList_ofList, Text.fields_append_replicate]
  exact .of_fields (congrArg (List.headD · []) same) (Sweep.read_congr same)

/-- The fields of a message whose second piece is not empty. -/
theorem fields_of_pieces {text command field : List Char} {others : List (List Char)}
    (cut : pieces ';' text = command :: field :: others) (filled : field ≠ []) :
    fields ';' text = command :: field :: Text.dropTrailingEmpty others := by
  rw [fields, cut, Text.dropTrailingEmpty_cons_cons command others filled]

/-- Commas at the end of a second field that is not empty do not change the request. -/
theorem alike_append_commas {command field : List Char} {others : List (List Char)}
    (cut : pieces ';' message.toList = command :: field :: others) (filled : field ≠ [])
    (count : Nat) :
    Alike (String.ofList
      ([';'].intercalate (command :: (field ++ List.replicate count ',') :: others))) message := by
  -- a comma is no semicolon, so the longer field is still one piece
  have longer : pieces ';' ([';'].intercalate
      (command :: (field ++ List.replicate count ',') :: others)) =
      command :: (field ++ List.replicate count ',') :: others := by
    refine (Text.pieces_eq_iff (List.cons_ne_nil _ _)).mpr ⟨?_, rfl⟩
    have apart := cut ▸ Text.apart_pieces ';' message.toList
    simp only [List.forall_mem_cons] at apart ⊢
    exact ⟨apart.1, by simp [apart.2.1], apart.2.2⟩
  have short := fields_of_pieces cut filled
  have long := fields_of_pieces longer (by simp [filled])
  rw [← String.toList_ofList (l := [';'].intercalate _)] at long
  refine .of_fields (by rw [short, long]; rfl) ?_
  exact Sweep.read_congr_declarations long short (Sweep.readDomains_append_replicate field count)

/-- A comma makes an empty second field count. -/
example : Sweep.read "MAX_GRID;" = .error .missingFields ∧
    Sweep.read "MAX_GRID;," = .error (.formula .badVariable) := ⟨rfl, rfl⟩

/-- Separators at the end do not change a request, whether it is in order or not and whatever its
fault is: semicolons at the end of any message, and commas at the end of any second field that is
not empty, where the fields of a message are the pieces between its semicolons. -/
theorem alike_of_trailing (message : String) (count : Nat) :
    Alike (message ++ String.ofList (List.replicate count ';')) message ∧
      ∀ (command field : List Char) (others : List (List Char)),
        pieces ';' message.toList = command :: field :: others → field ≠ [] →
        Alike (String.ofList ([';'].intercalate
          (command :: (field ++ List.replicate count ',') :: others))) message :=
  ⟨alike_append_semicolons message count,
    fun _ _ _ cut filled => alike_append_commas cut filled count⟩

/-- Two commas behind the declarations of a message that ends in an empty formula. -/
theorem alike_of_trailing_commas :
    pieces ';' "MAX_GRID;x:0:1:2;x;".toList =
        ["MAX_GRID".toList, "x:0:1:2".toList, "x".toList, []] ∧
      "x:0:1:2".toList ≠ [] ∧
      Alike "MAX_GRID;x:0:1:2,,;x;" "MAX_GRID;x:0:1:2;x;" := by
  have cut : pieces ';' "MAX_GRID;x:0:1:2;x;".toList =
      ["MAX_GRID".toList, "x:0:1:2".toList, "x".toList, []] := by decide
  have filled : "x:0:1:2".toList ≠ [] := by decide
  exact ⟨cut, filled, (alike_of_trailing "MAX_GRID;x:0:1:2;x;" 2).2 _ _ _ cut filled⟩

end Request

end ParamSweep
