import Mathlib.Data.List.Basic
import ParamSweep.Proofs.Number.Shortest
import ParamSweep.Proofs.Text.Fields
import ParamSweep.Proofs.Text.Items
import ParamSweep.Settings.Address

/-!
# Addresses and their texts

Whatever text is read as an address, the address has four octets or eight groups, and each of them
is as small as it has to be. The other way round, the text of every such address is read as this
address, so an address can be told from its text.

The text of an address of the sixth version leaves out zeros. Those are the first of the longest
runs, so the text tells how many there are: as many as are missing to eight.
-/

namespace ParamSweep.Address

/-- Four numbers of eight bits, or eight of sixteen. -/
inductive Proper : Address → Prop
  | v4 {octets : List Nat} (count : octets.length = 4) (small : ∀ octet ∈ octets, octet < 256) :
      Proper (.v4 octets)
  | v6 {groups : List Nat} (count : groups.length = 8) (small : ∀ group ∈ groups, group < 65536) :
      Proper (.v6 groups)

/-! ### Numbers of an address -/

/-- An octet is read from one to three digits, without a zero in front of others. -/
theorem octet?_eq_some {text : List Char} {octet : Nat} :
    octet? text = some octet ↔
      text ≠ [] ∧ text.length ≤ 3 ∧ (∀ c ∈ text, c.isDigit = true) ∧
        (text.head? = some '0' → text.length = 1) ∧ Number.unitsOf text = octet ∧ octet < 256 := by
  unfold octet?
  split_ifs with malformed leading small
  · refine iff_of_false nofun ?_
    rintro ⟨some, short, digits, -⟩
    have proper : text.all Char.isDigit = true := List.all_eq_true.mpr digits
    simp [some, proper] at malformed
    omega
  · exact iff_of_false nofun fun ⟨_, _, _, alone, _⟩ => leading.2 (alone leading.1)
  · simp only [Bool.or_eq_true, List.isEmpty_iff, decide_eq_true_eq, Bool.not_eq_true',
      not_or, Bool.not_eq_false] at malformed
    obtain ⟨⟨some, short⟩, digits⟩ := malformed
    rw [Option.some.injEq]
    constructor
    · rintro rfl
      exact ⟨some, by omega, List.all_eq_true.mp digits,
        fun zero => by_contra fun others => leading ⟨zero, others⟩, rfl, small⟩
    · rintro ⟨-, -, -, -, same, -⟩
      exact same
  · refine iff_of_false nofun ?_
    rintro ⟨-, -, -, -, rfl, less⟩
    exact small less

/-- The digits of a number other than zero begin with another digit than zero. -/
theorem head?_digits_ne {n : Nat} (above : 0 < n) : (Number.digits n).head? ≠ some '0' := by
  induction n using Nat.strong_induction_on with
  | _ n inductionHypothesis =>
    rw [Number.digits, Nat.toDigits_eq_if (by decide)]
    split
    next small =>
      interval_cases n <;> decide
    next large =>
      have front := inductionHypothesis (n / 10) (by omega) (by omega)
      rw [List.head?_append]
      cases head : (Nat.toDigits 10 (n / 10)).head? with
      | none => exact absurd (List.head?_eq_none_iff.mp head) Nat.toDigits_ne_nil
      | some c =>
        rw [Number.digits, head] at front
        simpa using front

/-- A number below 256 is read back from its decimal digits. -/
theorem octet?_digits {octet : Nat} (small : octet < 256) :
    octet? (Number.digits octet) = some octet := by
  obtain ⟨some, digits⟩ := Number.digitRun_digits octet
  refine octet?_eq_some.mpr ⟨some, ?_, digits, fun zero => ?_, Number.unitsOf_digits octet, small⟩
  · exact (Nat.length_toDigits_le_iff (by decide) (by decide)).mpr (by omega)
  · obtain rfl : octet = 0 := by
      by_contra other
      exact head?_digits_ne (Nat.pos_of_ne_zero other) zero
    rfl

/-- A hexadecimal digit is a number below sixteen. -/
theorem hexDigit?_lt {c : Char} {digit : Nat} (read : hexDigit? c = some digit) : digit < 16 := by
  unfold hexDigit? at read
  split_ifs at read with decimal lower upper
  · obtain ⟨-, most⟩ := Char.isDigit_iff_toNat.mp decimal
    have nine : '9'.toNat = '0'.toNat + 9 := rfl
    cases read
    omega
  · have most : c.toNat ≤ 'f'.toNat := lower.2
    have last : 'f'.toNat = 'a'.toNat + 5 := rfl
    cases read
    omega
  · have most : c.toNat ≤ 'F'.toNat := upper.2
    have last : 'F'.toNat = 'A'.toNat + 5 := rfl
    cases read
    omega

/-- Hexadecimal digits are read from the left: one more digit makes a number of sixteen times as
much and that digit. -/
theorem hexNumber?_concat (text : List Char) (c : Char) :
    hexNumber? (text ++ [c]) =
      (hexNumber? text).bind fun n => (hexDigit? c).map (16 * n + ·) := by
  simp [hexNumber?, List.foldlM_append]

/-- A number of so many hexadecimal digits is below this power of sixteen. -/
theorem hexNumber?_lt {text : List Char} {n : Nat} (read : hexNumber? text = some n) :
    n < 16 ^ text.length := by
  induction text using List.reverseRecOn generalizing n with
  | nil => cases read; decide
  | append_singleton text c inductionHypothesis =>
    rw [hexNumber?_concat] at read
    obtain ⟨front, frontRead, read⟩ := Option.bind_eq_some_iff.mp read
    obtain ⟨digit, digitRead, rfl⟩ := Option.map_eq_some_iff.mp read
    have less := inductionHypothesis frontRead
    have last := hexDigit?_lt digitRead
    rw [List.length_append, List.length_singleton, Nat.pow_succ]
    omega

/-- A group is a number of sixteen bits. -/
theorem group?_lt {text : List Char} {group : Nat} (read : group? text = some group) :
    group < 65536 := by
  unfold group? at read
  split_ifs at read with malformed
  have short : text.length ≤ 4 := by
    simp only [Bool.or_eq_true, decide_eq_true_eq, not_or] at malformed
    omega
  calc group < 16 ^ text.length := hexNumber?_lt read
    _ ≤ 16 ^ 4 := Nat.pow_le_pow_right (by decide) short

/-- The digit of a number below sixteen is read as that number. -/
theorem hexDigit?_digitChar {digit : Nat} (small : digit < 16) :
    hexDigit? digit.digitChar = some digit := by
  interval_cases digit <;> rfl

/-- Every digit of a number is read as one. -/
theorem exists_digit_of_mem_toDigits {base n : Nat} (two : 1 < base) {c : Char}
    (member : c ∈ Nat.toDigits base n) : ∃ digit < base, c = digit.digitChar := by
  induction n using Nat.strong_induction_on with
  | _ n inductionHypothesis =>
    rw [Nat.toDigits_eq_if two] at member
    split at member
    next small => exact ⟨n, small, List.mem_singleton.mp member⟩
    next large =>
      obtain front | last := List.mem_append.mp member
      · exact inductionHypothesis (n / base) (Nat.div_lt_self (by omega) two) front
      · exact ⟨n % base, Nat.mod_lt _ (by omega), List.mem_singleton.mp last⟩

/-- Every number is read back from its hexadecimal digits. -/
theorem hexNumber?_toDigits (n : Nat) : hexNumber? (Nat.toDigits 16 n) = some n := by
  induction n using Nat.strong_induction_on with
  | _ n inductionHypothesis =>
    rw [Nat.toDigits_eq_if (by decide)]
    split
    next small => simp [hexNumber?, hexDigit?_digitChar small]
    next large =>
      rw [hexNumber?_concat, inductionHypothesis (n / 16) (by omega), Option.bind_some,
        hexDigit?_digitChar (Nat.mod_lt n (by decide)), Option.map_some, Nat.div_add_mod]

/-- A number of sixteen bits is read back as a group. -/
theorem group?_toDigits {group : Nat} (small : group < 65536) :
    group? (Nat.toDigits 16 group) = some group := by
  have short : (Nat.toDigits 16 group).length ≤ 4 :=
    (Nat.length_toDigits_le_iff (by decide) (by decide)).mpr (by omega)
  have some : (Nat.toDigits 16 group).isEmpty = false := by
    rw [List.isEmpty_eq_false_iff]
    exact Nat.toDigits_ne_nil
  rw [group?, some, Bool.false_or, if_neg (by simpa using short), hexNumber?_toDigits]

/-- The digits of a group are neither a colon nor a point. -/
theorem not_mem_toDigits {mark : Char} (foreign : hexDigit? mark = none) (n : Nat) :
    mark ∉ Nat.toDigits 16 n := by
  intro member
  obtain ⟨digit, small, rfl⟩ := exists_digit_of_mem_toDigits (by decide) member
  rw [hexDigit?_digitChar small] at foreign
  cases foreign

/-! ### The fourth version -/

/-- Four octets are read from four pieces. -/
theorem octets?_eq_some {text : List Char} {octets : List Nat} :
    octets? text = some octets ↔
      octets.length = 4 ∧ (Text.pieces '.' text).mapM octet? = some octets := by
  unfold octets?
  split
  next first second third fourth cut =>
    rw [cut]
    exact ⟨fun each => ⟨(mapM_eq_some.mp each).length_eq.symm, each⟩, And.right⟩
  next other =>
    refine iff_of_false nofun ?_
    rintro ⟨count, each⟩
    obtain ⟨first, second, third, fourth, cut⟩ :=
      List.length_eq_four.mp ((mapM_eq_some.mp each).length_eq.trans count)
    exact other first second third fourth cut

/-- Each octet that is read is small. -/
theorem octets?_small {text : List Char} {octets : List Nat} (read : octets? text = some octets) :
    ∀ octet ∈ octets, octet < 256 := by
  refine forall_mem_of_mapM_eq_some (fun piece octet one => ?_) (octets?_eq_some.mp read).2
  obtain ⟨-, -, -, -, -, small⟩ := octet?_eq_some.mp one
  exact small

/-- Four numbers below 256 are read back from the text of an address. -/
theorem octets?_octetsText {octets : List Nat} (count : octets.length = 4)
    (small : ∀ octet ∈ octets, octet < 256) : octets? (octetsText octets) = some octets := by
  have some : octets.map Number.digits ≠ [] := by
    rintro none
    rw [List.map_eq_nil_iff.mp none] at count
    cases count
  have cut : Text.pieces '.' (octetsText octets) = octets.map Number.digits := by
    refine (Text.pieces_eq_iff some).mpr ⟨List.forall_mem_map.mpr fun octet _ point => ?_, rfl⟩
    exact absurd ((Number.digitRun_digits octet).2 '.' point) (by decide)
  rw [octets?_eq_some, cut, mapM_eq_some, List.forall₂_map_left_iff, List.forall₂_same]
  exact ⟨count, fun octet member => octet?_digits (small octet member)⟩

/-- An address of the fourth version is written with digits and points. -/
theorem not_mem_of_octets? {text : List Char} {octets : List Nat}
    (read : octets? text = some octets) : ':' ∉ text := by
  obtain ⟨count, each⟩ := octets?_eq_some.mp read
  have pieces := mapM_eq_some.mp each
  have some : Text.pieces '.' text ≠ [] := by
    intro none
    rw [none] at pieces
    cases pieces
    cases count
  obtain ⟨-, joined⟩ := (Text.pieces_eq_iff some).mp rfl
  rw [joined]
  refine Text.not_mem_intercalate (by decide) ?_
  have digits : ∀ piece ∈ Text.pieces '.' text, ∀ c ∈ piece, c.isDigit = true :=
    ((List.forall₂_and_left _ _).mp (pieces.imp fun piece octet found =>
      ⟨(octet?_eq_some.mp found).2.2.1, found⟩)).1
  exact fun piece member colon => absurd (digits piece member ':' colon) (by decide)

/-! ### The sixth version -/

/-- A piece that is not the last can only be a group. -/
theorem groupsOf?_cons_cons (embedded : Bool) (piece next : List Char) (rest : List (List Char)) :
    groupsOf? embedded (piece :: next :: rest) =
      (group? piece).bind fun group => (groupsOf? embedded (next :: rest)).map (group :: ·) := by
  rw [groupsOf?]
  · cases group? piece <;> cases groupsOf? embedded (next :: rest) <;> rfl
  · exact nofun

/-- The last piece gives one group, or two if it is an embedded address. -/
theorem groupsOf?_singleton {embedded : Bool} {last : List Char} {groups : List Nat}
    (read : groupsOf? embedded [last] = some groups) :
    (∃ group, group? last = some group ∧ groups = [group]) ∨
      ∃ a b c d, octets? last = some [a, b, c, d] ∧ groups = [256 * a + b, 256 * c + d] := by
  rw [groupsOf?] at read
  split at read
  next a b c d found =>
    split_ifs at read
    exact .inr ⟨a, b, c, d, found, (Option.some.inj read).symm⟩
  next =>
    obtain ⟨group, found, rfl⟩ := Option.map_eq_some_iff.mp read
    exact .inl ⟨group, found, rfl⟩

/-- The groups that are read are numbers of sixteen bits, also those of embedded octets. -/
theorem groupsOf?_small {embedded : Bool} {pieces : List (List Char)} {groups : List Nat}
    (read : groupsOf? embedded pieces = some groups) : ∀ group ∈ groups, group < 65536 := by
  induction pieces generalizing groups with
  | nil =>
    cases read
    exact nofun
  | cons piece rest inductionHypothesis =>
    cases rest with
    | nil =>
      obtain ⟨group, found, rfl⟩ | ⟨a, b, c, d, found, rfl⟩ := groupsOf?_singleton read
      · simpa using group?_lt found
      · have small := octets?_small found
        simp only [List.mem_cons, List.not_mem_nil, or_false, forall_eq_or_imp,
          forall_eq] at small ⊢
        omega
    | cons next rest =>
      rw [groupsOf?_cons_cons] at read
      obtain ⟨group, found, read⟩ := Option.bind_eq_some_iff.mp read
      obtain ⟨others, behind, rfl⟩ := Option.map_eq_some_iff.mp read
      exact List.forall_mem_cons.mpr ⟨group?_lt found, inductionHypothesis behind⟩

/-- So are the groups on each side of a gap. -/
theorem side?_small {embedded : Bool} {text : List Char} {groups : List Nat}
    (read : side? embedded text = some groups) : ∀ group ∈ groups, group < 65536 := by
  unfold side? at read
  split at read
  next =>
    cases read
    exact nofun
  next => exact groupsOf?_small read

/-- An address of the sixth version has eight groups: with a gap, as many of them are zero as are
missing. -/
theorem groups?_proper {text : List Char} {groups : List Nat} (read : groups? text = some groups) :
    (Address.v6 groups).Proper := by
  unfold groups? at read
  split at read
  next =>
    obtain ⟨pieces, count⟩ := Option.filter_eq_some_iff.mp read
    exact .v6 (by simpa using count) (groupsOf?_small pieces)
  next before behind gap =>
    simp only [bind, Option.bind_eq_some_iff] at read
    obtain ⟨front, frontRead, back, backRead, read⟩ := read
    split at read
    next fits =>
      cases read
      refine .v6 (by simp; omega) ?_
      simp only [List.forall_mem_append]
      exact ⟨⟨side?_small frontRead, fun group member => by simp [List.eq_of_mem_replicate member]⟩,
        side?_small backRead⟩
    next => cases read

/-- Whatever is read is an address. -/
theorem proper_of_ofText? {text : String} {address : Address} (read : ofText? text = some address) :
    address.Proper := by
  unfold ofText? at read
  split at read
  next octets found =>
    cases read
    exact .v4 (octets?_eq_some.mp found).1 (octets?_small found)
  next =>
    obtain ⟨groups, found, rfl⟩ := Option.map_eq_some_iff.mp read
    exact groups?_proper found

/-! ### Gaps -/

/-- A colon with another character behind it is no gap. -/
theorem cutAtGap?_colon {c : Char} (other : c ≠ ':') (text : List Char) :
    cutAtGap? (':' :: c :: text) =
      (cutAtGap? (c :: text)).map fun (before, behind) => (':' :: before, behind) := by
  rw [cutAtGap?]
  rintro rest - same
  exact other (List.cons.inj same).1

/-- In front of a gap there may be characters other than colons. -/
theorem cutAtGap?_append {part : List Char} (apart : ':' ∉ part) (text : List Char) :
    cutAtGap? (part ++ text) =
      (cutAtGap? text).map fun (before, behind) => (part ++ before, behind) := by
  induction part with
  | nil => simp
  | cons c part inductionHypothesis =>
    obtain ⟨other, others⟩ := not_or.mp (mt List.mem_cons.mpr apart)
    rw [List.cons_append, cutAtGap?, inductionHypothesis others]
    · cases cutAtGap? text <;> rfl
    · rintro rest rfl -
      exact other rfl

/-- Parts that are joined by single colons have no gap. -/
theorem cutAtGap?_intercalate {parts : List (List Char)} (apart : ∀ part ∈ parts, ':' ∉ part)
    (filled : ∀ part ∈ parts, part ≠ []) (text : List Char) :
    cutAtGap? ([':'].intercalate parts ++ text) =
      (cutAtGap? text).map fun (before, behind) => ([':'].intercalate parts ++ before, behind) := by
  induction parts with
  | nil => simp [List.intercalate]
  | cons part rest inductionHypothesis =>
    obtain ⟨own, others⟩ := List.forall_mem_cons.mp apart
    cases rest with
    | nil => simpa [List.intercalate] using cutAtGap?_append own text
    | cons next rest =>
      have behind := inductionHypothesis others (List.forall_mem_cons.mp filled).2
      obtain ⟨c, letters, rfl⟩ := List.exists_cons_of_ne_nil (filled next (by simp))
      have other : c ≠ ':' := by
        rintro rfl
        exact others _ List.mem_cons_self List.mem_cons_self
      have step := cutAtGap?_colon other ([':'].intercalate (letters :: rest) ++ text)
      rw [List.intercalate_cons_cons_left] at behind
      rw [← List.cons_append, behind] at step
      rw [List.intercalate_cons_cons, List.intercalate_cons_cons_left, List.append_assoc,
        List.append_assoc, cutAtGap?_append own, List.singleton_append, step]
      cases cutAtGap? text <;> simp

/-- Zeros are counted up to the first group that is not zero. -/
theorem zeros_cons (group : Nat) (rest : List Nat) :
    zeros (group :: rest) = if group = 0 then zeros rest + 1 else 0 := by
  by_cases none : group = 0 <;> simp [zeros, none]

/-- As many zeros are at the front as are counted. -/
theorem eq_zeros_append (groups : List Nat) :
    groups = List.replicate (zeros groups) 0 ++ groups.drop (zeros groups) := by
  induction groups with
  | nil => rfl
  | cons group rest inductionHypothesis =>
    rw [zeros_cons]
    split
    next none =>
      subst none
      exact congrArg (0 :: ·) inductionHypothesis
    next => rfl

/-- A run of zeros that is as long as any other, and longer than those that begin before it. -/
structure IsGap (groups : List Nat) (start length : Nat) : Prop where
  parts : groups = groups.take start ++ List.replicate length 0 ++ groups.drop (start + length)
  longest : ∀ position, zeros (groups.drop position) ≤ length
  first : ∀ position < start, zeros (groups.drop position) < length

/-- The gap in the text of an address is the first of the longest runs of zeros. -/
theorem isGap_longestGap (groups : List Nat) :
    IsGap groups (longestGap groups).1 (longestGap groups).2 := by
  induction groups with
  | nil => exact ⟨rfl, fun _ => by simp [zeros], nofun⟩
  | cons group rest inductionHypothesis =>
    obtain ⟨parts, longest, first⟩ := inductionHypothesis
    rw [longestGap]
    dsimp only
    split
    next atLeast =>
      refine ⟨?_, fun position => ?_, nofun⟩
      · simpa using eq_zeros_append (group :: rest)
      · cases position with
        | zero => exact le_rfl
        | succ position => exact (longest position).trans atLeast
    next less =>
      refine ⟨?_, fun position => ?_, fun position before => ?_⟩
      · rw [Nat.add_right_comm, List.take_succ_cons, List.drop_succ_cons]
        exact congrArg (group :: ·) parts
      · cases position with
        | zero => exact Nat.le_of_lt (Nat.lt_of_not_le less)
        | succ position => exact longest position
      · cases position with
        | zero => exact Nat.lt_of_not_le less
        | succ position => exact first position (Nat.lt_of_succ_lt_succ before)

/-! ### Texts are read back -/

section

variable {groups : List Nat} {embedded : Bool}

/-- Groups are written in hexadecimal digits, with colons between them. -/
theorem groupsText_eq (groups : List Nat) :
    groupsText groups = [':'].intercalate (groups.map (Nat.toDigits 16)) := rfl

/-- Digits of groups are pieces between colons. -/
theorem pieces_groupsText (some : groups ≠ []) :
    Text.pieces ':' (groupsText groups) = groups.map (Nat.toDigits 16) := by
  refine (Text.pieces_eq_iff (by simpa using some)).mpr ⟨?_, rfl⟩
  exact List.forall_mem_map.mpr fun group _ => not_mem_toDigits rfl group

/-- A piece without a point is no embedded address. -/
theorem groupsOf?_singleton_toDigits {group : Nat} (small : group < 65536) :
    groupsOf? embedded [Nat.toDigits 16 group] = some [group] := by
  have cut : Text.pieces '.' (Nat.toDigits 16 group) = [Nat.toDigits 16 group] :=
    (Text.pieces_eq_iff (List.cons_ne_nil _ _)).mpr
      ⟨by simpa using not_mem_toDigits rfl group, by simp⟩
  have apart : octets? (Nat.toDigits 16 group) = none := by rw [octets?, cut]
  rw [groupsOf?, apart, group?_toDigits small]
  rfl

/-- Groups are read back piece by piece. -/
theorem groupsOf?_toDigits (small : ∀ group ∈ groups, group < 65536) :
    groupsOf? embedded (groups.map (Nat.toDigits 16)) = some groups := by
  induction groups with
  | nil => rfl
  | cons group rest inductionHypothesis =>
    obtain ⟨own, others⟩ := List.forall_mem_cons.mp small
    cases rest with
    | nil => exact groupsOf?_singleton_toDigits own
    | cons next rest =>
      have behind := inductionHypothesis others
      rw [List.map_cons] at behind
      rw [List.map_cons, List.map_cons, groupsOf?_cons_cons, group?_toDigits own, behind]
      rfl

/-- The groups on a side of a gap are read back, also if there are none. -/
theorem side?_groupsText (small : ∀ group ∈ groups, group < 65536) :
    side? embedded (groupsText groups) = some groups := by
  cases groups with
  | nil => rfl
  | cons group rest =>
    have filled : (groupsText (group :: rest)).isEmpty = false := by
      obtain ⟨c, letters, shape⟩ :=
        List.exists_cons_of_ne_nil (Nat.toDigits_ne_nil : Nat.toDigits 16 group ≠ [])
      rw [groupsText_eq, List.map_cons, shape, List.intercalate_cons_cons_left]
      rfl
    rw [side?, filled, pieces_groupsText (List.cons_ne_nil _ _)]
    exact groupsOf?_toDigits small

/-- In front of a gap, groups are read up to the gap; elsewhere they have none. -/
theorem cutAtGap?_groupsText (groups : List Nat) (text : List Char) :
    cutAtGap? (groupsText groups ++ text) =
      (cutAtGap? text).map fun (before, behind) => (groupsText groups ++ before, behind) := by
  refine cutAtGap?_intercalate ?_ ?_ text
  · exact List.forall_mem_map.mpr fun group _ => not_mem_toDigits rfl group
  · exact List.forall_mem_map.mpr fun group _ => Nat.toDigits_ne_nil

/-- Without a gap there are all eight groups. -/
theorem groups?_groupsText (count : groups.length = 8)
    (small : ∀ group ∈ groups, group < 65536) : groups? (groupsText groups) = some groups := by
  have some : groups ≠ [] := by
    rintro rfl
    cases count
  have gap : cutAtGap? (groupsText groups) = none := by
    simpa [cutAtGap?] using cutAtGap?_groupsText groups []
  rw [groups?, gap]
  dsimp only
  rw [pieces_groupsText some, groupsOf?_toDigits small]
  simp [count]

/-- With a gap the missing groups are zeros. -/
theorem groups?_gap {front back : List Nat} {missing : Nat}
    (count : front.length + missing + back.length = 8) (gap : 0 < missing)
    (smallFront : ∀ group ∈ front, group < 65536) (smallBack : ∀ group ∈ back, group < 65536) :
    groups? (groupsText front ++ ':' :: ':' :: groupsText back) =
      some (front ++ List.replicate missing 0 ++ back) := by
  have cut : cutAtGap? (groupsText front ++ ':' :: ':' :: groupsText back) =
      some (groupsText front, groupsText back) := by
    simp [cutAtGap?_groupsText, cutAtGap?]
  have fits : front.length + back.length < 8 := by omega
  have zeros : 8 - front.length - back.length = missing := by omega
  rw [groups?, cut]
  simp [side?_groupsText smallFront, side?_groupsText smallBack, fits, zeros]

/-- Two groups are written as four octets behind `::ffff`, and read from them. -/
theorem groups?_embedded {high low : Nat} (highSmall : high < 65536) (lowSmall : low < 65536) :
    groups? ("::ffff:".toList ++ octetsText [high / 256, high % 256, low / 256, low % 256]) =
      some [0, 0, 0, 0, 0, 0xffff, high, low] := by
  have octets : octets? (octetsText [high / 256, high % 256, low / 256, low % 256]) =
      some [high / 256, high % 256, low / 256, low % 256] := by
    refine octets?_octetsText rfl ?_
    simp only [List.mem_cons, List.not_mem_nil, or_false, forall_eq_or_imp, forall_eq]
    omega
  generalize octetsText [high / 256, high % 256, low / 256, low % 256] = text at octets
  have cut : Text.pieces ':' ("ffff:".toList ++ text) = ["ffff".toList, text] := by
    refine (Text.pieces_eq_iff (List.cons_ne_nil _ _)).mpr ⟨?_, by simp⟩
    simpa using not_mem_of_octets? octets
  have last : groupsOf? true [text] = some [high, low] := by
    rw [groupsOf?, octets]
    simp [Nat.div_add_mod]
  have behind : side? true ("ffff:".toList ++ text) = some [0xffff, high, low] := by
    have first : group? "ffff".toList = some 0xffff := rfl
    rw [side?, cut, groupsOf?_cons_cons, first, last]
    rfl
  have gap : cutAtGap? ("::ffff:".toList ++ text) = some ([], "ffff:".toList ++ text) := rfl
  rw [groups?, gap]
  simp only [behind]
  rfl

/-- Eight groups are read back from the text of an address, with or without a gap in it. -/
theorem groups?_v6Text (count : groups.length = 8) (small : ∀ group ∈ groups, group < 65536) :
    groups? (v6Text groups) = some groups := by
  unfold v6Text
  split
  next high low =>
    simp only [List.mem_cons, List.not_mem_nil, or_false, forall_eq_or_imp, forall_eq] at small
    exact groups?_embedded (by omega) (by omega)
  next =>
    have parts := (isGap_longestGap groups).parts
    dsimp only
    split
    next long =>
      generalize (longestGap groups).1 = start at parts
      generalize (longestGap groups).2 = length at parts long
      have lengths := congrArg List.length parts
      simp only [List.length_append, List.length_replicate, count] at lengths
      have front : ∀ group ∈ groups.take start, group < 65536 := fun group member =>
        small group (List.mem_of_mem_take member)
      have back : ∀ group ∈ groups.drop (start + length), group < 65536 := fun group member =>
        small group (List.mem_of_mem_drop member)
      rw [groups?_gap lengths.symm (by omega) front back, ← parts]
    next => exact groups?_groupsText count small

end

/-- An address of the sixth version is written with a colon. -/
theorem mem_v6Text {groups : List Nat} (count : groups.length = 8) : ':' ∈ v6Text groups := by
  unfold v6Text
  split
  next => simp
  next =>
    dsimp only
    split
    next => simp
    next =>
      obtain ⟨first, second, rest, rfl⟩ :
          ∃ first second rest, groups = first :: second :: rest := by
        match groups, count with
        | first :: second :: rest, _ => exact ⟨first, second, rest, rfl⟩
      rw [groupsText_eq, List.map_cons, List.map_cons, List.intercalate_cons_cons]
      simp

/-- The text of an address is read as this address. -/
theorem ofText?_text {address : Address} (proper : address.Proper) :
    ofText? address.text = some address := by
  cases proper with
  | v4 count small => simp [ofText?, text, octets?_octetsText count small]
  | @v6 groups count small =>
    have other : octets? (v6Text groups) = none := by
      refine Option.eq_none_iff_forall_ne_some.mpr fun octets read => ?_
      exact not_mem_of_octets? read (mem_v6Text count)
    simp [ofText?, text, other, groups?_v6Text count small]

end ParamSweep.Address
