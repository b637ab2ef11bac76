import ParamSweep.Line.Inbound

/-!
# Cutting a stream of bytes into lines

Bytes arrive in chunks that have nothing to do with lines. The decoder keeps the bytes of the
line that has not ended yet, and remembers how many of them it has searched for the end of the
line in vain. A line longer than the limit, counting a carriage return, is reported as soon as
that is known; from then on the decoder discards bytes up to and including the next line feed.

When the stream ends, the bytes that are left form a last line. A single carriage return is no
such line; it stays where it is.

Every item either takes bytes out of the buffer or starts discarding, and a decoder that
discards yields nothing before it has taken bytes out; so the items that are ready at any one
time come to an end.
-/

namespace ParamSweep.Line

/-- The state between chunks. -/
structure Decoder where
  limit : Nat
  buffer : List UInt8 := []
  searched : Nat := 0
  discarding : Bool := false
  deriving Repr

/-- The position of the first line feed among the first `count` bytes. -/
def feedWithin : (count : Nat) → List UInt8 → Option Nat
  | 0, _ => none
  | _, [] => none
  | count + 1, byte :: rest =>
    if byte = lineFeed then some 0 else (feedWithin count rest).map (· + 1)

/-- A line feed that is found stands among the bytes. -/
theorem feedWithin_lt_length {count position : Nat} {bytes : List UInt8}
    (found : feedWithin count bytes = some position) : position < bytes.length := by
  induction bytes generalizing count position with
  | nil => cases count <;> simp [feedWithin] at found
  | cons byte rest inductionHypothesis =>
    cases count with
    | zero => simp [feedWithin] at found
    | succ count =>
      rw [feedWithin] at found
      split at found
      · cases found
        simp
      · obtain ⟨earlier, foundEarlier, rfl⟩ := Option.map_eq_some_iff.1 found
        have := inductionHypothesis foundEarlier
        simp only [List.length_cons]
        omega

namespace Decoder

/-- The item at the front of the buffer, for a decoder that is not discarding. -/
def takeLine (decoder : Decoder) : Option Inbound × Decoder :=
  let unsearched := decoder.buffer.drop decoder.searched
  match feedWithin (decoder.limit + 1 - decoder.searched) unsearched with
  | some position =>
    let length := decoder.searched + position
    (some (.ofBytes (decoder.buffer.take length)),
      { decoder with buffer := decoder.buffer.drop (length + 1), searched := 0 })
  | none =>
    if decoder.limit < decoder.buffer.length then
      (some .overlong, { decoder with discarding := true })
    else
      (none, { decoder with searched := decoder.buffer.length })

/-- The next item, as far as the bytes at hand decide it. -/
def next (decoder : Decoder) : Option Inbound × Decoder :=
  if decoder.discarding then
    match (decoder.buffer.drop decoder.searched).dropWhile (· ≠ lineFeed) with
    | [] => (none, { decoder with buffer := [], searched := 0 })
    | _ :: rest => takeLine { decoder with buffer := rest, searched := 0, discarding := false }
  else
    decoder.takeLine

/-- The next item of a stream that has ended. -/
def nextAtEnd (decoder : Decoder) : Option Inbound × Decoder :=
  match decoder.next with
  | (some item, decoder) => (some item, decoder)
  | (none, decoder) =>
    if decoder.buffer = [] ∨ decoder.buffer = [carriageReturn] then
      (none, { decoder with searched := 0 })
    else
      (some (.ofBytes decoder.buffer), { decoder with buffer := [], searched := 0 })

/-- What every item reduces. -/
def weight (decoder : Decoder) : Nat :=
  2 * decoder.buffer.length + if decoder.discarding then 0 else 1

/-- A line that is taken makes the decoder lighter. -/
theorem weight_takeLine {decoder after : Decoder} {item : Inbound}
    (reading : decoder.discarding = false) (taken : decoder.takeLine = (some item, after)) :
    after.weight < decoder.weight := by
  simp only [takeLine] at taken
  split at taken
  next position found =>
    have inside := feedWithin_lt_length found
    simp only [List.length_drop] at inside
    cases taken
    simp only [weight, reading, List.length_drop]
    omega
  next =>
    split at taken
    · cases taken
      simp [weight, reading]
    · cases taken

/-- A search without a line leaves the bytes where they are. -/
theorem weight_takeLine_none {decoder after : Decoder}
    (taken : decoder.takeLine = (none, after)) : after.weight = decoder.weight := by
  simp only [takeLine] at taken
  split at taken
  · cases taken
  · split at taken <;> cases taken
    rfl

/-- Dropping bytes does not make them more. -/
theorem length_dropWhile_drop_le (count : Nat) (bytes : List UInt8) (test : UInt8 → Bool) :
    ((bytes.drop count).dropWhile test).length ≤ bytes.length := by
  have shorter := (List.dropWhile_sublist test (l := bytes.drop count)).length_le
  simp only [List.length_drop] at shorter
  omega

/-- Each item that is taken makes the decoder lighter, so that taking all of them ends. -/
theorem weight_next {decoder after : Decoder} {item : Inbound}
    (taken : decoder.next = (some item, after)) : after.weight < decoder.weight := by
  unfold next at taken
  split at taken
  next discarding =>
    have shorter := length_dropWhile_drop_le decoder.searched decoder.buffer (· ≠ lineFeed)
    split at taken
    · cases taken
    next left =>
      rw [left] at shorter
      simp only [List.length_cons] at shorter
      have less := weight_takeLine rfl taken
      simp only [weight, discarding] at less ⊢
      simp only [Bool.false_eq_true, if_false, if_true] at less ⊢
      omega
  next reading => exact weight_takeLine (by simpa using reading) taken

/-- A decoder that has no item left has not become heavier. -/
theorem weight_next_none {decoder after : Decoder} (taken : decoder.next = (none, after)) :
    after.weight ≤ decoder.weight := by
  unfold next at taken
  split at taken
  next discarding =>
    have shorter := length_dropWhile_drop_le decoder.searched decoder.buffer (· ≠ lineFeed)
    split at taken
    · cases taken
      simp [weight]
    next left =>
      rw [left] at shorter
      simp only [List.length_cons] at shorter
      have same := weight_takeLine_none taken
      simp only [weight, discarding] at same ⊢
      simp only [Bool.false_eq_true, if_false, if_true] at same ⊢
      omega
  next => exact Nat.le_of_eq (weight_takeLine_none taken)

/-- At the end of the stream, too, each item makes the decoder lighter. -/
theorem weight_nextAtEnd {decoder after : Decoder} {item : Inbound}
    (taken : decoder.nextAtEnd = (some item, after)) : after.weight < decoder.weight := by
  unfold nextAtEnd at taken
  split at taken
  next found =>
    cases taken
    exact weight_next found
  next waiting found =>
    have bound := weight_next_none found
    split at taken
    · cases taken
    next left =>
      cases taken
      have nonempty : 0 < waiting.buffer.length :=
        List.length_pos_iff.2 fun empty => left (Or.inl empty)
      simp only [weight, List.length_nil] at bound ⊢
      omega

/-- All items that are ready, after those in `ready`, the latest first. -/
def drain (decoder : Decoder) (ready : List Inbound) : List Inbound × Decoder :=
  match taken : decoder.next with
  | (none, after) => (ready.reverse, after)
  | (some item, after) =>
    have := weight_next taken
    after.drain (item :: ready)
termination_by decoder.weight

/-- All items that are left when the stream has ended, after those in `ready`, the latest
first. -/
def drainAtEnd (decoder : Decoder) (ready : List Inbound) : List Inbound × Decoder :=
  match taken : decoder.nextAtEnd with
  | (none, after) => (ready.reverse, after)
  | (some item, after) =>
    have := weight_nextAtEnd taken
    after.drainAtEnd (item :: ready)
termination_by decoder.weight

/-- The items that a chunk of bytes completes. -/
def receive (decoder : Decoder) (chunk : List UInt8) : List Inbound × Decoder :=
  drain { decoder with buffer := decoder.buffer ++ chunk } []

/-- The items that the end of the stream completes. -/
def finish (decoder : Decoder) : List Inbound × Decoder := decoder.drainAtEnd []

end Decoder

end ParamSweep.Line
