import ParamSweep.Line.Decoder

/-!
# Lines do not depend on how their bytes arrive

A whole stream says what its items are: it falls apart at its line feeds, every segment with a
line feed behind it is one item, and what is left behind the last line feed is one more if it
is not empty. The decoder never sees the whole stream, and what it has seen may end anywhere.

What the decoder still owes is the items of its buffer with the rest of the stream behind it,
without the first segment if that one is being discarded. Taking an item takes it off what is
owed, whatever the rest will be; arriving bytes move from the rest to the buffer and change
nothing. So the items taken in the end are the items of the stream.
-/

namespace ParamSweep.Line

/-- The item of a segment that a line feed ends. -/
def segmentItem (limit : Nat) (segment : List UInt8) : Inbound :=
  if limit < segment.length then .overlong else .ofBytes segment

/-- The item of what is left behind the last line feed. A single carriage return is none. -/
def restItems (limit : Nat) (rest : List UInt8) : List Inbound :=
  if limit < rest.length then [.overlong]
  else if rest = [] ∨ rest = [carriageReturn] then []
  else [.ofBytes rest]

/-- The items of segments, of which the last one has no line feed behind it. -/
def segmentItems (limit : Nat) : List (List UInt8) → List Inbound
  | [] => []
  | [rest] => restItems limit rest
  | segment :: segments => segmentItem limit segment :: segmentItems limit segments

/-- The items of a whole stream. -/
def streamItems (limit : Nat) (bytes : List UInt8) : List Inbound :=
  segmentItems limit (bytes.splitOn lineFeed)

/-- The first segment of a stream is an item of its own, and the others are those of what
stands behind the line feed. -/
theorem streamItems_append (limit : Nat) {segment : List UInt8} (whole : lineFeed ∉ segment)
    (bytes : List UInt8) :
    streamItems limit (segment ++ lineFeed :: bytes) =
      segmentItem limit segment :: streamItems limit bytes := by
  rw [streamItems, List.splitOn_append_cons_self_of_not_mem whole, streamItems]
  cases others : bytes.splitOn lineFeed with
  | nil => exact absurd others (List.splitOn_ne_nil _ _)
  | cons next segments => rfl

/-- Bytes without a line feed are what is left at the end of the stream. -/
theorem streamItems_rest (limit : Nat) {rest : List UInt8} (unfed : lineFeed ∉ rest) :
    streamItems limit rest = restItems limit rest := by
  rw [streamItems, List.splitOn_eq_singleton unfed]
  rfl

/-- The items of a stream whose first segment is left out. -/
def itemsBehind (limit : Nat) (bytes : List UInt8) : List Inbound :=
  segmentItems limit (bytes.splitOn lineFeed).tail

/-- What is behind the first line feed begins a stream of its own. -/
theorem itemsBehind_append (limit : Nat) {segment : List UInt8} (whole : lineFeed ∉ segment)
    (bytes : List UInt8) :
    itemsBehind limit (segment ++ lineFeed :: bytes) = streamItems limit bytes := by
  rw [itemsBehind, List.splitOn_append_cons_self_of_not_mem whole]
  rfl

/-- Behind bytes without a line feed there is nothing. -/
theorem itemsBehind_rest (limit : Nat) {rest : List UInt8} (unfed : lineFeed ∉ rest) :
    itemsBehind limit rest = [] := by
  rw [itemsBehind, List.splitOn_eq_singleton unfed]
  rfl

/-- Bytes without a line feed in front of what is left out are left out as well. -/
theorem itemsBehind_skip (limit : Nat) {front : List UInt8} (unfed : lineFeed ∉ front)
    (bytes : List UInt8) : itemsBehind limit (front ++ bytes) = itemsBehind limit bytes := by
  by_cases fed : lineFeed ∈ bytes
  · obtain ⟨segment, rest, rfl, whole⟩ := List.eq_append_cons_of_mem fed
    have both : lineFeed ∉ front ++ segment := by simp [unfed, whole]
    rw [← List.append_assoc, itemsBehind_append limit both, itemsBehind_append limit whole]
  · have both : lineFeed ∉ front ++ bytes := by simp [unfed, fed]
    rw [itemsBehind_rest limit both, itemsBehind_rest limit fed]

/-- A stream that begins with more bytes than a line may have begins with an overlong line, and
the next line is the one behind the first line feed. -/
theorem streamItems_overlong {limit : Nat} {bytes : List UInt8}
    (unfed : lineFeed ∉ bytes.take (limit + 1)) (long : limit < bytes.length) :
    streamItems limit bytes = .overlong :: itemsBehind limit bytes := by
  by_cases fed : lineFeed ∈ bytes
  · obtain ⟨segment, rest, rfl, whole⟩ := List.eq_append_cons_of_mem fed
    have longer : limit < segment.length := by
      refine Nat.lt_of_not_le fun within => unfed ?_
      have room : limit + 1 - segment.length = (limit - segment.length) + 1 := by omega
      rw [List.take_append, room]
      simp
    rw [streamItems_append limit whole, itemsBehind_append limit whole, segmentItem,
      if_pos longer]
  · rw [streamItems_rest limit fed, itemsBehind_rest limit fed, restItems, if_pos long]

/-- A line feed that is found is the first one. -/
theorem feedWithin_eq_some {count position : Nat} {bytes : List UInt8}
    (found : feedWithin count bytes = some position) :
    position < count ∧ ∃ segment rest, bytes = segment ++ lineFeed :: rest ∧
      segment.length = position ∧ lineFeed ∉ segment := by
  induction bytes generalizing count position with
  | nil => cases count <;> cases found
  | cons byte bytes inductionHypothesis =>
    cases count with
    | zero => cases found
    | succ count =>
      rw [feedWithin] at found
      split at found
      next feed =>
        cases found
        exact ⟨Nat.succ_pos _, [], bytes, by rw [feed]; rfl, rfl, List.not_mem_nil⟩
      next other =>
        obtain ⟨earlier, foundEarlier, rfl⟩ := Option.map_eq_some_iff.mp found
        obtain ⟨within, segment, rest, rfl, rfl, whole⟩ := inductionHypothesis foundEarlier
        refine ⟨Nat.succ_lt_succ within, byte :: segment, rest, rfl, rfl, ?_⟩
        exact List.not_mem_cons_of_ne_of_not_mem (Ne.symm other) whole

/-- If no line feed is found, none is among the bytes that were looked at. -/
theorem feedWithin_eq_none {count : Nat} {bytes : List UInt8}
    (missing : feedWithin count bytes = none) : lineFeed ∉ bytes.take count := by
  induction bytes generalizing count with
  | nil => simp
  | cons byte bytes inductionHypothesis =>
    cases count with
    | zero => simp
    | succ count =>
      rw [feedWithin] at missing
      split at missing
      next => cases missing
      next other =>
        rw [Option.map_eq_none_iff] at missing
        exact List.not_mem_cons_of_ne_of_not_mem (Ne.symm other) (inductionHypothesis missing)

/-- What is left after everything before the first line feed has been dropped. -/
theorem of_dropWhile {bytes left : List UInt8} (dropped : bytes.dropWhile (· ≠ lineFeed) = left) :
    left = [] ∧ lineFeed ∉ bytes ∨
      ∃ segment rest, bytes = segment ++ lineFeed :: rest ∧ left = lineFeed :: rest ∧
        lineFeed ∉ segment := by
  induction bytes with
  | nil => exact .inl ⟨dropped.symm, List.not_mem_nil⟩
  | cons byte bytes inductionHypothesis =>
    by_cases feed : byte = lineFeed
    · subst feed
      refine .inr ⟨[], bytes, rfl, ?_, List.not_mem_nil⟩
      simpa using dropped.symm
    · have further : bytes.dropWhile (· ≠ lineFeed) = left := by simpa [feed] using dropped
      obtain ⟨empty, unfed⟩ | ⟨segment, rest, rfl, same, whole⟩ := inductionHypothesis further
      · exact .inl ⟨empty, List.not_mem_cons_of_ne_of_not_mem (Ne.symm feed) unfed⟩
      · exact .inr ⟨byte :: segment, rest, rfl, same,
          List.not_mem_cons_of_ne_of_not_mem (Ne.symm feed) whole⟩

namespace Decoder

/-- The items that are owed, if the bytes of `future` are still to come. -/
def owed (decoder : Decoder) (future : List UInt8) : List Inbound :=
  if decoder.discarding then itemsBehind decoder.limit (decoder.buffer ++ future)
  else streamItems decoder.limit (decoder.buffer ++ future)

/-- The bytes that count as searched are there and hold no line feed. -/
structure Searched (decoder : Decoder) : Prop where
  inside : decoder.searched ≤ decoder.buffer.length
  unfed : lineFeed ∉ decoder.buffer.take decoder.searched

/-- What an item or the lack of one changes: the limit stays, and the item is the next one that
is owed, whatever is still to come. -/
structure Step (before : Decoder) (item : Option Inbound) (after : Decoder) : Prop where
  searched : after.Searched
  limit : after.limit = before.limit
  owed (future : List UInt8) : before.owed future = item.toList ++ after.owed future

/-- A decoder that has not searched yet claims nothing. -/
theorem searched_fresh (limit : Nat) (buffer : List UInt8) (discarding : Bool) :
    Searched { limit, buffer, searched := 0, discarding } :=
  ⟨Nat.zero_le _, by simp⟩

/-- The first line feed of the buffer, if it is among the first `limit + 1` bytes. -/
theorem exists_segment {decoder : Decoder} (sound : decoder.Searched) {position : Nat}
    (found : feedWithin (decoder.limit + 1 - decoder.searched)
      (decoder.buffer.drop decoder.searched) = some position) :
    ∃ segment rest, decoder.buffer = segment ++ lineFeed :: rest ∧ lineFeed ∉ segment ∧
      segment.length = decoder.searched + position ∧ segment.length ≤ decoder.limit := by
  obtain ⟨within, segment, rest, parts, rfl, whole⟩ := feedWithin_eq_some found
  have length : (decoder.buffer.take decoder.searched).length = decoder.searched :=
    List.length_take_of_le sound.inside
  refine ⟨decoder.buffer.take decoder.searched ++ segment, rest, ?_, ?_, ?_, ?_⟩
  · rw [List.append_assoc, ← parts, List.take_append_drop]
  · simp [sound.unfed, whole]
  · rw [List.length_append, length]
  · rw [List.length_append, length]
    omega

/-- No line feed among the first `limit + 1` bytes of the buffer. -/
theorem not_mem_of_feedWithin {decoder : Decoder} (sound : decoder.Searched)
    (missing : feedWithin (decoder.limit + 1 - decoder.searched)
      (decoder.buffer.drop decoder.searched) = none) :
    lineFeed ∉ decoder.buffer.take (decoder.limit + 1) := by
  have behind := feedWithin_eq_none missing
  rcases Nat.le_total decoder.searched (decoder.limit + 1) with before | past
  · have parts : decoder.buffer.take (decoder.limit + 1) =
        decoder.buffer.take decoder.searched ++
          (decoder.buffer.drop decoder.searched).take (decoder.limit + 1 - decoder.searched) := by
      rw [← List.take_add, Nat.add_sub_of_le before]
    rw [parts, List.mem_append]
    exact not_or.mpr ⟨sound.unfed, behind⟩
  · exact fun early => sound.unfed (List.take_subset_take_left _ past early)

/-- Nothing in the buffer is an item before more bytes come. -/
def Waiting (decoder : Decoder) : Prop :=
  if decoder.discarding then decoder.buffer = []
  else lineFeed ∉ decoder.buffer ∧ decoder.buffer.length ≤ decoder.limit

/-- Taking a line from the buffer takes the next item that is owed. -/
theorem step_takeLine {decoder : Decoder} (sound : decoder.Searched)
    (reading : decoder.discarding = false) :
    decoder.Step decoder.takeLine.1 decoder.takeLine.2 ∧
      (decoder.takeLine.1 = none → decoder.takeLine.2.Waiting) := by
  simp only [takeLine]
  split
  next position found =>
    obtain ⟨segment, rest, parts, whole, length, within⟩ := exists_segment sound found
    have taken : decoder.buffer.take (decoder.searched + position) = segment := by
      rw [parts, ← length, List.take_left]
    have left : decoder.buffer.drop (decoder.searched + position + 1) = rest := by
      rw [parts, ← length]
      simp
    refine ⟨⟨searched_fresh _ _ _, rfl, fun future => ?_⟩, fun nothing => by cases nothing⟩
    simp only [owed, reading, taken, left, Bool.false_eq_true, if_false]
    rw [parts, List.append_assoc, List.cons_append, streamItems_append _ whole, segmentItem,
      if_neg (Nat.not_lt.mpr within)]
    rfl
  next missing =>
    have unfed := not_mem_of_feedWithin sound missing
    split
    next long =>
      refine ⟨⟨⟨sound.inside, sound.unfed⟩, rfl, fun future => ?_⟩, fun nothing => by cases nothing⟩
      have start : (decoder.buffer ++ future).take (decoder.limit + 1) =
          decoder.buffer.take (decoder.limit + 1) := List.take_append_of_le_length long
      have longer : decoder.limit < (decoder.buffer ++ future).length := by
        rw [List.length_append]
        omega
      simp only [owed, reading, Bool.false_eq_true, if_false, if_true]
      rw [streamItems_overlong (start ▸ unfed) longer]
      rfl
    next short =>
      have fits : decoder.buffer.length ≤ decoder.limit := Nat.le_of_not_lt short
      have nowhere : lineFeed ∉ decoder.buffer := by
        rwa [List.take_of_length_le (Nat.le_succ_of_le fits)] at unfed
      refine ⟨⟨⟨Nat.le_refl _, ?_⟩, rfl, fun future => rfl⟩, fun _ => ?_⟩
      · rwa [List.take_length]
      · simp only [Waiting, reading, Bool.false_eq_true, if_false]
        exact ⟨nowhere, fits⟩

/-- Bytes that are not owed can be dropped before a step. -/
theorem Step.of_owed_eq {before between after : Decoder} {item : Option Inbound}
    (step : between.Step item after) (limit : between.limit = before.limit)
    (same : ∀ future, before.owed future = between.owed future) : before.Step item after :=
  ⟨step.searched, step.limit.trans limit, fun future => (same future).trans (step.owed future)⟩

/-- The next item that the bytes at hand decide is the next one that is owed. -/
theorem step_next {decoder : Decoder} (sound : decoder.Searched) :
    decoder.Step decoder.next.1 decoder.next.2 ∧
      (decoder.next.1 = none → decoder.next.2.Waiting) := by
  unfold next
  split
  next discarding =>
    have front : decoder.buffer.take decoder.searched ++ decoder.buffer.drop decoder.searched =
        decoder.buffer := List.take_append_drop _ _
    split
    next nothing =>
      obtain ⟨-, behind⟩ | ⟨_, _, _, absurdity, _⟩ := of_dropWhile nothing
      · -- The whole buffer belongs to a line that is left out.
        have unfed : lineFeed ∉ decoder.buffer := by
          rw [← front, List.mem_append]
          exact not_or.mpr ⟨sound.unfed, behind⟩
        refine ⟨⟨searched_fresh _ _ _, rfl, fun future => ?_⟩, fun _ => ?_⟩
        · simp only [owed, discarding, if_true]
          rw [itemsBehind_skip _ unfed]
          rfl
        · simp [Waiting, discarding]
      · cases absurdity
    next first rest left =>
      obtain ⟨absurdity, _⟩ | ⟨segment, behind, parts, same, whole⟩ := of_dropWhile left
      · cases absurdity
      · cases same
        -- The line that is left out ends here, and the next one begins behind it.
        have taken := step_takeLine (searched_fresh decoder.limit rest false) rfl
        refine ⟨taken.1.of_owed_eq rfl fun future => ?_, taken.2⟩
        have unfed : lineFeed ∉ decoder.buffer.take decoder.searched ++ segment := by
          rw [List.mem_append]
          exact not_or.mpr ⟨sound.unfed, whole⟩
        have cut : decoder.buffer ++ future =
            (decoder.buffer.take decoder.searched ++ segment) ++ lineFeed :: (rest ++ future) :=
          calc decoder.buffer ++ future
              = (decoder.buffer.take decoder.searched ++ (segment ++ lineFeed :: rest)) ++ future :=
                by rw [← parts, front]
            _ = _ := by simp
        simp only [owed, discarding, if_true, Bool.false_eq_true, if_false]
        rw [cut, itemsBehind_append _ unfed]
  next reading => exact step_takeLine sound (by simpa using reading)

/-- The items that are taken while nothing more arrives are the next ones that are owed. -/
theorem drain_spec (decoder : Decoder) (ready : List Inbound) (sound : decoder.Searched) :
    (decoder.drain ready).2.Searched ∧ (decoder.drain ready).2.limit = decoder.limit ∧
      ∀ future, (decoder.drain ready).1 ++ (decoder.drain ready).2.owed future =
        ready.reverse ++ decoder.owed future := by
  fun_induction drain decoder ready with
  | case1 decoder ready after taken =>
    obtain ⟨step, -⟩ := step_next sound
    rw [taken] at step
    exact ⟨step.searched, step.limit, fun future => by rw [step.owed future]; rfl⟩
  | case2 decoder ready item after taken less inductionHypothesis =>
    obtain ⟨step, -⟩ := step_next sound
    rw [taken] at step
    obtain ⟨searched, limit, owed⟩ := inductionHypothesis step.searched
    refine ⟨searched, limit.trans step.limit, fun future => ?_⟩
    rw [owed future, step.owed future]
    simp

/-- At the end of the stream a decoder without bytes owes no item. -/
theorem owed_of_empty {decoder : Decoder} (empty : decoder.buffer = []) :
    decoder.owed [] = [] := by
  rw [owed, empty]
  split
  · rfl
  · rw [List.append_nil, streamItems_rest _ List.not_mem_nil]
    simp [restItems]

/-- Where nothing is an item before more bytes come, the bytes left are a last line or none. -/
theorem owed_of_waiting {decoder : Decoder} (waiting : decoder.Waiting) :
    decoder.owed [] =
      if decoder.buffer = [] ∨ decoder.buffer = [carriageReturn] then []
      else [.ofBytes decoder.buffer] := by
  unfold Waiting at waiting
  split at waiting
  next discarding =>
    rw [if_pos (.inl waiting), owed_of_empty waiting]
  next reading =>
    obtain ⟨unfed, fits⟩ := waiting
    rw [owed, if_neg reading, List.append_nil, streamItems_rest _ unfed, restItems,
      if_neg (Nat.not_lt.mpr fits)]

/-- The next item of a stream that has ended is the next one that is owed, and without one
nothing is owed any more. -/
theorem step_nextAtEnd {decoder : Decoder} (sound : decoder.Searched) :
    decoder.nextAtEnd.2.Searched ∧
      decoder.owed [] = decoder.nextAtEnd.1.toList ++ decoder.nextAtEnd.2.owed [] ∧
      (decoder.nextAtEnd.1 = none → decoder.nextAtEnd.2.owed [] = []) := by
  obtain ⟨step, waits⟩ := step_next sound
  unfold nextAtEnd
  split
  next item after taken =>
    rw [taken] at step
    exact ⟨step.searched, step.owed [], fun nothing => by cases nothing⟩
  next after taken =>
    rw [taken] at step waits
    have owed : decoder.owed [] = after.owed [] := step.owed []
    have left : after.owed [] =
        if after.buffer = [] ∨ after.buffer = [carriageReturn] then []
        else [.ofBytes after.buffer] := owed_of_waiting (waits rfl)
    split
    next nothing =>
      rw [if_pos nothing] at left
      exact ⟨searched_fresh _ _ _, owed, fun _ => left⟩
    next line =>
      rw [if_neg line] at left
      refine ⟨searched_fresh _ _ _, ?_, fun nothing => by cases nothing⟩
      have nothing : Decoder.owed { after with buffer := [], searched := 0 } [] = [] :=
        owed_of_empty rfl
      rw [nothing, owed, left]
      rfl

/-- The items that are taken when the stream has ended are all that are owed. -/
theorem drainAtEnd_spec (decoder : Decoder) (ready : List Inbound) (sound : decoder.Searched) :
    (decoder.drainAtEnd ready).1 = ready.reverse ++ decoder.owed [] := by
  fun_induction drainAtEnd decoder ready with
  | case1 decoder ready after taken =>
    obtain ⟨-, owed, done⟩ := step_nextAtEnd sound
    rw [taken] at owed done
    rw [owed, done rfl]
    simp
  | case2 decoder ready item after taken less inductionHypothesis =>
    obtain ⟨searched, owed, -⟩ := step_nextAtEnd sound
    rw [taken] at searched owed
    rw [inductionHypothesis searched, owed]
    simp

/-- Arriving bytes stand behind those that count as searched. -/
theorem Searched.arrived {decoder : Decoder} (sound : decoder.Searched) (chunk : List UInt8) :
    Searched { decoder with buffer := decoder.buffer ++ chunk } := by
  refine ⟨?_, ?_⟩
  · have inside := sound.inside
    simp only [List.length_append]
    omega
  · simp only [List.take_append_of_le_length sound.inside]
    exact sound.unfed

/-- Everything that a decoder yields for a stream that arrives in chunks and then ends. -/
def readAll (decoder : Decoder) : (chunks : List (List UInt8)) → List Inbound
  | [] => decoder.finish.1
  | chunk :: chunks => (decoder.receive chunk).1 ++ (decoder.receive chunk).2.readAll chunks

/-- Arriving bytes are owed no less than those that are still to come. -/
theorem readAll_eq_owed (chunks : List (List UInt8)) {decoder : Decoder}
    (sound : decoder.Searched) : decoder.readAll chunks = decoder.owed chunks.flatten := by
  induction chunks generalizing decoder with
  | nil => exact drainAtEnd_spec decoder [] sound
  | cons chunk chunks inductionHypothesis =>
    obtain ⟨searched, -, owed⟩ := drain_spec _ [] (sound.arrived chunk)
    rw [readAll, receive, inductionHypothesis searched, owed]
    simp [Decoder.owed]

end Decoder

/-- The items of a stream do not depend on how its bytes arrive: for every limit and every way
in which a stream is cut into chunks, a fresh decoder yields the items of the whole stream. Each
line is an item of its own, whatever the lines before it are.

Proof: every step takes the next item that is owed. A fresh decoder owes the items of all bytes
to come, and at the end of the stream nothing is owed that has not been taken. -/
theorem readAll_eq_streamItems (limit : Nat) (chunks : List (List UInt8)) :
    Decoder.readAll { limit } chunks = streamItems limit chunks.flatten :=
  Decoder.readAll_eq_owed chunks (Decoder.searched_fresh limit [] false)

end ParamSweep.Line
