import ParamSweep.Proofs.Line.Framing

/-!
# What is known of a stream before it ends

The bytes that have arrived make some items of a stream certain: these stand in their places
however the stream goes on. They are the items of the lines that have ended, and one more if the
line that has not ended is already longer than a line may be. Of any other unfinished line nothing
is certain: with a line feed behind it, it is an item that is not overlong, and with many bytes
behind it, it is an overlong one.

This is what a decoder yields as soon as it can. It never holds back an item that is certain, and
it never guesses.
-/

namespace ParamSweep.Line

/-- The items of segments of which the last one has not come to its end. -/
def unendedItems (limit : Nat) : List (List UInt8) → List Inbound
  | [] => []
  | [rest] => if limit < rest.length then [.overlong] else []
  | segment :: segments => segmentItem limit segment :: unendedItems limit segments

/-- The items of a stream that are known by the time these bytes have arrived. -/
def knownItems (limit : Nat) (bytes : List UInt8) : List Inbound :=
  unendedItems limit (bytes.splitOn lineFeed)

/-- A segment that a line feed ends is known, and so is what is known behind it. -/
theorem knownItems_append (limit : Nat) {segment : List UInt8} (whole : lineFeed ∉ segment)
    (bytes : List UInt8) :
    knownItems limit (segment ++ lineFeed :: bytes) =
      segmentItem limit segment :: knownItems limit bytes := by
  rw [knownItems, List.splitOn_append_cons_self_of_not_mem whole, knownItems]
  cases others : bytes.splitOn lineFeed with
  | nil => exact absurd others (List.splitOn_ne_nil _ _)
  | cons next segments => rfl

/-- Of a segment that has not ended only this is known: that it is too long, once it is. -/
theorem knownItems_rest (limit : Nat) {rest : List UInt8} (unfed : lineFeed ∉ rest) :
    knownItems limit rest = if limit < rest.length then [.overlong] else [] := by
  rw [knownItems, List.splitOn_eq_singleton unfed]
  rfl

/-- The item in a place of a stream is certain: whatever comes behind these bytes, it is there. -/
def Certain (limit : Nat) (bytes : List UInt8) (place : Nat) (item : Inbound) : Prop :=
  ∀ future, (streamItems limit (bytes ++ future))[place]? = some item

/-- Bytes that fit the limit are never told of as too long. -/
theorem ofBytes_ne_overlong (bytes : List UInt8) : Inbound.ofBytes bytes ≠ .overlong := by
  rw [Inbound.ofBytes]
  split <;> simp

namespace Decoder

/-- Nothing that a waiting decoder owes is certain. -/
theorem Waiting.not_certain {decoder : Decoder} (waiting : decoder.Waiting) (place : Nat)
    (item : Inbound) : ¬ ∀ future, (decoder.owed future)[place]? = some item := by
  intro certain
  by_cases discarding : decoder.discarding = true
  · have empty : decoder.buffer = [] := by simpa [Waiting, discarding] using waiting
    have nothing := certain []
    rw [owed_of_empty empty] at nothing
    cases nothing
  · obtain ⟨unfed, fits⟩ : lineFeed ∉ decoder.buffer ∧ decoder.buffer.length ≤ decoder.limit := by
      simpa [Waiting, discarding] using waiting
    have line : decoder.owed [lineFeed] = [.ofBytes decoder.buffer] := by
      have others : streamItems decoder.limit [] = [] := by
        rw [streamItems_rest _ List.not_mem_nil]
        simp [restItems]
      rw [owed, if_neg discarding, streamItems_append _ unfed, segmentItem,
        if_neg (Nat.not_lt.mpr fits), others]
    have overlong : decoder.owed (List.replicate (decoder.limit + 1) carriageReturn) =
        [.overlong] := by
      have unfedToo : lineFeed ∉ decoder.buffer ++
          List.replicate (decoder.limit + 1) carriageReturn := by
        rw [List.mem_append, List.mem_replicate]
        exact not_or.mpr ⟨unfed, fun other => absurd other.2 (by decide)⟩
      have long : decoder.limit < (decoder.buffer ++
          List.replicate (decoder.limit + 1) carriageReturn).length := by
        rw [List.length_append, List.length_replicate]
        omega
      rw [owed, if_neg discarding, streamItems_rest _ unfedToo, restItems, if_pos long]
    have ended := certain [lineFeed]
    have stretched := certain (List.replicate (decoder.limit + 1) carriageReturn)
    rw [line] at ended
    rw [overlong] at stretched
    cases place with
    | zero =>
      cases stretched
      exact ofBytes_ne_overlong _ (Option.some.inj ended)
    | succ place => cases ended

/-- Where a waiting decoder owes what items leave of a stream, these are the certain ones. -/
theorem Waiting.certain_iff {decoder : Decoder} (waiting : decoder.Waiting) {bytes : List UInt8}
    {items : List Inbound} (parts : ∀ future,
      items ++ decoder.owed future = streamItems decoder.limit (bytes ++ future))
    (place : Nat) (item : Inbound) :
    items[place]? = some item ↔ Certain decoder.limit bytes place item := by
  constructor
  · intro stands future
    obtain ⟨inside, -⟩ := List.getElem?_eq_some_iff.mp stands
    rw [← parts future, List.getElem?_append_left inside, stands]
  · intro certain
    by_cases inside : place < items.length
    · have first := certain []
      rwa [← parts [], List.getElem?_append_left inside] at first
    · refine absurd (fun future => ?_) (waiting.not_certain (place - items.length) item)
      have here := certain future
      rwa [← parts future, List.getElem?_append_right (Nat.le_of_not_lt inside)] at here

end Decoder

/-- Behind the items that are known, a stream has what some waiting decoder owes. -/
theorem exists_waiting (limit : Nat) (bytes : List UInt8) :
    ∃ decoder : Decoder, decoder.limit = limit ∧ decoder.Waiting ∧ ∀ future,
      knownItems limit bytes ++ decoder.owed future = streamItems limit (bytes ++ future) := by
  induction measured : bytes.length using Nat.strongRecOn generalizing bytes with
  | ind size inductionHypothesis =>
    by_cases fed : lineFeed ∈ bytes
    · obtain ⟨segment, rest, rfl, whole⟩ := List.eq_append_cons_of_mem fed
      have shorter : rest.length < size := by
        rw [← measured, List.length_append, List.length_cons]
        omega
      obtain ⟨decoder, same, waiting, parts⟩ := inductionHypothesis _ shorter rest rfl
      refine ⟨decoder, same, waiting, fun future => ?_⟩
      calc knownItems limit (segment ++ lineFeed :: rest) ++ decoder.owed future
          = segmentItem limit segment :: (knownItems limit rest ++ decoder.owed future) := by
            rw [knownItems_append _ whole, List.cons_append]
        _ = segmentItem limit segment :: streamItems limit (rest ++ future) := by
            rw [parts future]
        _ = streamItems limit (segment ++ lineFeed :: (rest ++ future)) :=
            (streamItems_append _ whole _).symm
        _ = streamItems limit (segment ++ lineFeed :: rest ++ future) := by
            rw [List.append_assoc, List.cons_append]
    · rw [knownItems_rest _ fed]
      by_cases long : limit < bytes.length
      · refine ⟨{ limit, discarding := true }, rfl, by simp [Decoder.Waiting], fun future => ?_⟩
        have unfed : lineFeed ∉ (bytes ++ future).take (limit + 1) := by
          rw [List.take_append_of_le_length long]
          exact fun early => fed (List.mem_of_mem_take early)
        have longer : limit < (bytes ++ future).length := by
          rw [List.length_append]
          omega
        rw [if_pos long, streamItems_overlong unfed longer, itemsBehind_skip _ fed]
        rfl
      · refine ⟨{ limit, buffer := bytes }, rfl, ?_, fun future => ?_⟩
        · simpa [Decoder.Waiting] using ⟨fed, Nat.le_of_not_lt long⟩
        · rw [if_neg long]
          rfl

/-- The items that are known are those that are certain. -/
theorem getElem?_knownItems_iff (limit : Nat) (bytes : List UInt8) (place : Nat)
    (item : Inbound) :
    (knownItems limit bytes)[place]? = some item ↔ Certain limit bytes place item := by
  obtain ⟨decoder, rfl, waiting, parts⟩ := exists_waiting limit bytes
  exact waiting.certain_iff parts place item

namespace Decoder

/-- A decoder to which these bytes have come and which has yielded what it could: it owes what the
stream has behind the items that are known. -/
structure Reached (limit : Nat) (bytes : List UInt8) (decoder : Decoder) : Prop where
  searched : decoder.Searched
  sameLimit : decoder.limit = limit
  owed (future : List UInt8) :
    knownItems limit bytes ++ decoder.owed future = streamItems limit (bytes ++ future)

/-- A new decoder has reached what is known of no bytes. -/
theorem reached_fresh (limit : Nat) : Reached limit [] { limit } where
  searched := searched_fresh limit [] false
  sameLimit := rfl
  owed future := by
    rw [knownItems_rest _ List.not_mem_nil]
    rfl

/-- A decoder that has been drained waits. -/
theorem waiting_drain (decoder : Decoder) (ready : List Inbound) (sound : decoder.Searched) :
    (decoder.drain ready).2.Waiting := by
  fun_induction drain decoder ready with
  | case1 decoder ready after taken =>
    obtain ⟨-, waits⟩ := step_next sound
    rw [taken] at waits
    exact waits rfl
  | case2 decoder ready item after taken less inductionHypothesis =>
    obtain ⟨step, -⟩ := step_next sound
    rw [taken] at step
    exact inductionHypothesis step.searched

/-- A chunk yields the items that are known with it and were not known without it. -/
theorem Reached.receive {limit : Nat} {bytes : List UInt8} {decoder : Decoder}
    (reached : decoder.Reached limit bytes) (chunk : List UInt8) :
    knownItems limit bytes ++ (decoder.receive chunk).1 = knownItems limit (bytes ++ chunk) ∧
      (decoder.receive chunk).2.Reached limit (bytes ++ chunk) := by
  have arrived := reached.searched.arrived chunk
  obtain ⟨searched, kept, owed⟩ := drain_spec _ [] arrived
  have waiting : (decoder.receive chunk).2.Waiting := waiting_drain _ [] arrived
  have limits : (decoder.receive chunk).2.limit = limit := kept.trans reached.sameLimit
  have parts (future : List UInt8) :
      (knownItems limit bytes ++ (decoder.receive chunk).1) ++
        (decoder.receive chunk).2.owed future = streamItems limit (bytes ++ chunk ++ future) :=
    calc (knownItems limit bytes ++ (decoder.receive chunk).1) ++
          (decoder.receive chunk).2.owed future
        = knownItems limit bytes ++ decoder.owed (chunk ++ future) := by
          rw [List.append_assoc, Decoder.receive, owed future]
          simp [Decoder.owed]
      _ = streamItems limit (bytes ++ chunk ++ future) := by
          rw [reached.owed, List.append_assoc]
  have known : knownItems limit bytes ++ (decoder.receive chunk).1 =
      knownItems limit (bytes ++ chunk) := by
    refine List.ext_getElem? fun place => Option.ext fun item => ?_
    rw [getElem?_knownItems_iff, ← limits]
    exact waiting.certain_iff (fun future => by rw [limits]; exact parts future) place item
  exact ⟨known, searched, limits, fun future => known ▸ parts future⟩

/-- The end of the stream yields the items that were not known before. -/
theorem Reached.finish {limit : Nat} {bytes : List UInt8} {decoder : Decoder}
    (reached : decoder.Reached limit bytes) :
    knownItems limit bytes ++ decoder.finish.1 = streamItems limit bytes := by
  have left := reached.owed []
  rw [List.append_nil] at left
  rw [Decoder.finish, drainAtEnd_spec decoder [] reached.searched]
  exact left

end Decoder

end ParamSweep.Line
