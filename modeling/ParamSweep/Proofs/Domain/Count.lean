import ParamSweep.Proofs.Domain.Declaration
import ParamSweep.Proofs.Number.Quotient
import ParamSweep.Proofs.Number.Reading

/-!
# How many points a declaration has

The ends and the step of a declaration are decimals, and the number of its points is that of
`⌈(upper - lower) / step⌉ + 1` with floats: the three numbers, the distance of the ends and the
quotient are rounded before the ceiling is taken. With decimals that are no floats this may be one
point more than the exact formula has, even where the step divides the distance. Where nothing is
rounded before the division there is no point too many and at most one too few, and none is missing
if the step divides the distance, or if the numbers are multiples of one power of two.
-/

namespace ParamSweep.Domain

open Number (IsNearest IsBinary64 nearest bound)
open Number.Literal (DenotesSigned ReadsAs)

/-- A declaration, with the numbers that its parts are written for. -/
structure Writes (text name : List Char) (lower step upper : ℚ) : Prop where
  parts : ∃ lowerText stepText upperText,
    text = name ++ ':' :: (lowerText ++ ':' :: (stepText ++ ':' :: upperText)) ∧
      DenotesSigned lowerText lower ∧ DenotesSigned stepText step ∧ DenotesSigned upperText upper
  isName : Formula.IsName name

/-- The number of points between exact ends. -/
def exactSize (lower step upper : ℚ) : ℤ := ⌈(upper - lower) / step⌉ + 1

/-- The number of points that is found by rounding each number, the difference and the quotient. A
step beyond the largest float is infinite and leads nowhere. -/
def roundedSize (lower step upper : ℚ) : ℕ :=
  if |nearest step| < bound then
    ⌈nearest (nearest (nearest upper - nearest lower) / nearest step)⌉₊ + 1
  else 1

/-- Numbers that are not rounded before the division: the ends, the step and the distance of the
ends are floats. -/
structure Unrounded (lower step upper : ℚ) : Prop where
  first : IsBinary64 lower
  stride : IsBinary64 step
  last : IsBinary64 upper
  distance : IsBinary64 (upper - lower)

/-- Numbers on a binary grid: they are multiples of one power of two, and no multiple has more than
53 digits. -/
structure OnGrid (lower step upper : ℚ) : Prop where
  multiples : ∃ first stride last exponent : ℤ, lower = first * 2 ^ exponent ∧
    step = stride * 2 ^ exponent ∧ upper = last * 2 ^ exponent ∧ |first| < 2 ^ 53 ∧
    |stride| < 2 ^ 53 ∧ |last| < 2 ^ 53 ∧ |last - first| < 2 ^ 53 ∧
    -1074 ≤ exponent ∧ exponent ≤ 971

/-- How many points there are, with respect to the exact number of them. -/
structure Counts (lower step upper : ℚ) (size : ℕ) : Prop where
  rounded : size = roundedSize lower step upper
  near : Unrounded lower step upper → (upper - lower) / step < 2 ^ 53 →
    size ≤ exactSize lower step upper ∧ exactSize lower step upper ≤ size + 1
  whole : Unrounded lower step upper → ∀ steps : ℕ, upper - lower = steps * step →
    size = steps + 1
  onGrid : OnGrid lower step upper → size = exactSize lower step upper

/-! ### What is accepted -/

/-- Every declaration that is accepted is written for three numbers. -/
theorem Writes.exists_of_read {text : List Char} {domain : Domain}
    (accepted : Domain.read text = .ok domain) :
    ∃ name lower step upper, Writes text name lower step upper := by
  cases read_iff_declares.mp accepted with
  | @domain name _ _ _ _ spells steep ordered finite fits =>
    obtain ⟨_, _, _, same, readsLower, readsStep, readsUpper⟩ := spells.parts
    obtain ⟨lower, denotesLower⟩ := readsLower.form
    obtain ⟨step, denotesStep⟩ := readsStep.form
    obtain ⟨upper, denotesUpper⟩ := readsUpper.form
    exact ⟨name, lower, step, upper,
      ⟨_, _, _, same, denotesLower, denotesStep, denotesUpper⟩, spells.isName⟩

/-- The floats that a declaration is read as are the nearest ones. -/
theorem Writes.spells {text name : List Char} {lower step upper : ℚ}
    (writes : Writes text name lower step upper) :
    ∃ first stride last : Float, Spells text name first stride last ∧ IsNearest lower first ∧
      IsNearest step stride ∧ IsNearest upper last := by
  have reads {text : List Char} {value : ℚ} (denotes : DenotesSigned text value) :
      ∃ x, ReadsAs text x ∧ IsNearest value x := by
    obtain ⟨x, read⟩ := Option.isSome_iff_exists.mp
      ((Number.Literal.isSome_readSigned? text).mpr ⟨value, denotes⟩)
    exact ⟨x, ⟨⟨value, denotes⟩, read⟩, denotes.isNearest read⟩
  obtain ⟨_, _, _, same, denotesLower, denotesStep, denotesUpper⟩ := writes.parts
  obtain ⟨first, readsLower, nearLower⟩ := reads denotesLower
  obtain ⟨stride, readsStep, nearStep⟩ := reads denotesStep
  obtain ⟨last, readsUpper, nearUpper⟩ := reads denotesUpper
  exact ⟨first, stride, last,
    ⟨⟨_, _, _, same, readsLower, readsStep, readsUpper⟩, writes.isName⟩, nearLower, nearStep,
    nearUpper⟩

/-- A domain is made only if its step goes up and its ends are in order, and has as many values as
their quotient counts. -/
theorem eq_ok_of_make {name : String} {first stride last : Float} {domain : Domain}
    (accepted : make name first stride last = .ok domain) :
    ¬ stride ≤ 0 ∧ ¬ last < first ∧ ∃ steps, Number.value? ((last - first) / stride) = some steps ∧
      domain.size = ⌈steps⌉₊ + 1 := by
  unfold make at accepted
  split at accepted
  next => cases accepted
  next steep =>
    split at accepted
    next => cases accepted
    next ordered =>
      split at accepted
      next count found =>
        obtain ⟨steps, finite, rfl, -⟩ := steps?_eq_some.mp found
        cases accepted
        exact ⟨steep, ordered, steps, finite, rfl⟩
      next => cases accepted

section

variable {lower step upper : ℚ} {first stride last : Float} (nearLower : IsNearest lower first)
  (nearStep : IsNearest step stride) (nearUpper : IsNearest upper last)

include nearLower nearStep nearUpper

/-- The quotient of floats is the one that is found by rounding. -/
theorem roundedSize_of_quotient (steep : ¬ stride ≤ 0) {steps : ℚ}
    (finite : Number.value? ((last - first) / stride) = some steps) :
    ⌈steps⌉₊ + 1 = roundedSize lower step upper := by
  obtain ⟨total, known⟩ := Number.finite_of_div finite
  obtain ⟨⟨_, knownUpper⟩, _, knownLower⟩ := Number.finite_of_sub known
  obtain rfl := nearUpper.value_eq knownUpper
  obtain rfl := nearLower.value_eq knownLower
  obtain rfl := (Number.isNearest_sub knownUpper knownLower).value_eq known
  unfold roundedSize
  split
  next small =>
    have knownStep := nearStep.finite small
    have above : nearest step ≠ 0 := fun none =>
      steep ((Number.le_iff knownStep Number.value?_zero).mpr none.le)
    rw [(Number.isNearest_div known knownStep above).value_eq finite]
  next large =>
    have nothing := Number.value?_div_infinite known (nearStep.infinite (not_lt.mp large))
    rw [Option.some.inj (finite.symm.trans nothing), Nat.ceil_zero]

/-- Floats that are exact have been compared exactly. -/
theorem Unrounded.ordered (unrounded : Unrounded lower step upper) (steep : ¬ stride ≤ 0)
    (ordered : ¬ last < first) : 0 < step ∧ lower ≤ upper := by
  have knownLower := nearLower.value?_eq unrounded.first
  have knownStep := nearStep.value?_eq unrounded.stride
  have knownUpper := nearUpper.value?_eq unrounded.last
  constructor
  · by_contra flat
    exact steep ((Number.le_iff knownStep Number.value?_zero).mpr (not_lt.mp flat))
  · by_contra reversed
    exact ordered ((Number.lt_iff knownUpper knownLower).mpr (not_le.mp reversed))

end

/-! ### Exact numbers of points -/

section

variable {lower step upper : ℚ}

/-- If the difference is a float, only the quotient is rounded. -/
theorem roundedSize_of_unrounded (unrounded : Unrounded lower step upper) :
    roundedSize lower step upper = ⌈nearest ((upper - lower) / step)⌉₊ + 1 := by
  rw [roundedSize, unrounded.first.nearest_eq, unrounded.stride.nearest_eq,
    unrounded.last.nearest_eq, unrounded.distance.nearest_eq, if_pos unrounded.stride.bounded]

/-- Without rounding there is the first value, and one for each step that is begun. -/
theorem exactSize_eq (above : 0 < step) (ordered : lower ≤ upper) :
    exactSize lower step upper = (⌈(upper - lower) / step⌉₊ + 1 : ℕ) := by
  have quotient : 0 ≤ (upper - lower) / step := div_nonneg (sub_nonneg.mpr ordered) above.le
  rw [exactSize, Nat.cast_add, Int.natCast_ceil_eq_ceil quotient, Nat.cast_one]

/-- Numbers on a binary grid are floats, and so are their differences. -/
theorem OnGrid.unrounded (onGrid : OnGrid lower step upper) : Unrounded lower step upper := by
  obtain ⟨first, stride, last, exponent, rfl, rfl, rfl, digits, digits', digits'', distance, least,
    most⟩ := onGrid.multiples
  have isBinary64 {multiple : ℤ} (digits : |multiple| < 2 ^ 53) :
      IsBinary64 (multiple * 2 ^ exponent) := by
    refine ⟨⟨multiple, exponent, digits, least, rfl⟩, ?_⟩
    rw [abs_mul, abs_of_pos (Number.two_zpow_pos exponent)]
    calc |(multiple : ℚ)| * 2 ^ exponent
      _ < 2 ^ 53 * 2 ^ exponent :=
        mul_lt_mul_of_pos_right (by exact_mod_cast digits) (Number.two_zpow_pos exponent)
      _ ≤ 2 ^ 53 * 2 ^ (971 : ℤ) :=
        mul_le_mul_of_nonneg_left (zpow_le_zpow_right₀ one_le_two most) (by positivity)
      _ = bound := by
        rw [bound, ← zpow_natCast, ← zpow_natCast, ← zpow_add₀ two_ne_zero]
        norm_num
  refine ⟨isBinary64 digits, isBinary64 digits', isBinary64 digits'', ?_⟩
  rw [← sub_mul, ← Int.cast_sub]
  exact isBinary64 distance

/-- On a binary grid the quotient keeps its ceiling. -/
theorem OnGrid.ceil_nearest (onGrid : OnGrid lower step upper) (above : 0 < step)
    (ordered : lower ≤ upper) :
    ⌈nearest ((upper - lower) / step)⌉₊ = ⌈(upper - lower) / step⌉₊ := by
  obtain ⟨first, stride, last, exponent, rfl, rfl, rfl, -, digits', -, distance, -, -⟩ :=
    onGrid.multiples
  have scale := Number.two_zpow_pos exponent
  have positive : 0 < stride := by exact_mod_cast pos_of_mul_pos_left above scale.le
  obtain ⟨divisor, rfl⟩ := Int.eq_ofNat_of_zero_le positive.le
  have nonnegative : 0 ≤ last - first := by
    have less : (first : ℚ) ≤ last := le_of_mul_le_mul_right ordered scale
    exact sub_nonneg.mpr (by exact_mod_cast less)
  obtain ⟨dividend, same⟩ := Int.eq_ofNat_of_zero_le nonnegative
  have quotient : ((last : ℚ) * 2 ^ exponent - first * 2 ^ exponent) /
      ((divisor : ℤ) * 2 ^ exponent) = dividend / divisor := by
    rw [← sub_mul, ← Int.cast_sub, same, mul_div_mul_right _ _ scale.ne', Int.cast_natCast,
      Int.cast_natCast]
  rw [quotient]
  rw [same, Nat.abs_cast] at distance
  rw [Nat.abs_cast] at digits'
  exact Number.ceil_nearest_div (by exact_mod_cast distance) (by exact_mod_cast positive)
    (by exact_mod_cast digits')

/-- The number of points that is found by rounding, with respect to the exact one. -/
theorem counts_of_rounded {size : ℕ} (rounded : size = roundedSize lower step upper)
    (ordered : Unrounded lower step upper → 0 < step ∧ lower ≤ upper) :
    Counts lower step upper size where
  rounded := rounded
  near unrounded small := by
    obtain ⟨above, ordered⟩ := ordered unrounded
    have quotient : 0 ≤ (upper - lower) / step := div_nonneg (sub_nonneg.mpr ordered) above.le
    obtain ⟨most, least⟩ := Number.ceil_nearest_bounds quotient small
    rw [rounded, roundedSize_of_unrounded unrounded, exactSize_eq above ordered]
    omega
  whole unrounded steps divides := by
    obtain ⟨above, ordered⟩ := ordered unrounded
    have quotient : (upper - lower) / step = steps := by
      rw [divides, mul_div_cancel_right₀ _ above.ne']
    rw [rounded, roundedSize_of_unrounded unrounded, quotient,
      Number.nearest_of_whole unrounded.distance unrounded.stride above divides, Nat.ceil_natCast]
  onGrid onGrid := by
    obtain ⟨above, ordered⟩ := ordered onGrid.unrounded
    rw [rounded, roundedSize_of_unrounded onGrid.unrounded, exactSize_eq above ordered,
      onGrid.ceil_nearest above ordered]

end

/-- Every declaration that is accepted is written for three numbers, and has the number of points
that is found by rounding them. -/
theorem counts_of_read {text : List Char} {domain : Domain}
    (accepted : Domain.read text = .ok domain) :
    (∃ name lower step upper, Writes text name lower step upper) ∧
      ∀ name lower step upper, Writes text name lower step upper →
        Counts lower step upper domain.size := by
  refine ⟨Writes.exists_of_read accepted, fun name lower step upper writes => ?_⟩
  obtain ⟨first, stride, last, spells, nearLower, nearStep, nearUpper⟩ := writes.spells
  rw [spells.read] at accepted
  obtain ⟨steep, ordered, steps, finite, size⟩ := eq_ok_of_make accepted
  refine counts_of_rounded (size.trans ?_) fun unrounded => ?_
  · exact roundedSize_of_quotient nearLower nearStep nearUpper steep finite
  · exact unrounded.ordered nearLower nearStep nearUpper steep ordered

/-! ### Two declarations -/

/-- What is seen of the result of reading is seen of a domain. -/
theorem exists_of_observed {α : Type} {text : List Char} {observe : Domain → α} {seen : α}
    (found : (Domain.read text).toOption.map observe = some seen) :
    ∃ domain, Domain.read text = .ok domain ∧ observe domain = seen := by
  obtain ⟨domain, some, same⟩ := Option.map_eq_some_iff.mp found
  cases read : Domain.read text with
  | error fault =>
    rw [read] at some
    cases some
  | ok other =>
    rw [read] at some
    exact ⟨other, rfl, Option.some.inj some ▸ same⟩

/-- A digit behind the point is so many tenths. -/
theorem denotes_tenths {c : Char} {digit : ℕ} {value : ℚ} (isDigit : c.isDigit = true)
    (units : c.toNat - '0'.toNat = digit) (same : (digit : ℚ) / 10 = value) :
    DenotesSigned ['0', '.', c] value := by
  have denotes := Number.Literal.Denotes.fraction
    (show Formula.DigitRun ['0'] from ⟨List.cons_ne_nil _ _, by simp⟩)
    (show Formula.DigitRun [c] from ⟨List.cons_ne_nil _ _, by simpa using isDigit⟩)
  have exact : (Number.Literal.positional ['0'] : ℚ) +
      Number.Literal.positional [c] / 10 ^ [c].length = value := by
    simp [Number.Literal.positional, ← same, ← units]
  exact .plain (exact ▸ denotes)

/-- With decimals that are no floats there may be a point too many: three steps of a tenth lead from
`0.1` to `0.4`, which makes four points, but a fifth is counted. -/
theorem size_of_tenths : ∃ domain, Domain.read "x:0.1:0.1:0.4".toList = .ok domain ∧
    Writes "x:0.1:0.1:0.4".toList ['x'] (1 / 10) (1 / 10) (4 / 10) ∧
    (4 / 10 - 1 / 10 : ℚ) = 3 * (1 / 10) ∧ exactSize (1 / 10) (1 / 10) (4 / 10) = 4 ∧
    domain.size = 5 := by
  obtain ⟨domain, accepted, size⟩ := exists_of_observed
    (show (Domain.read "x:0.1:0.1:0.4".toList).toOption.map Domain.size = some 5 by decide +kernel)
  have tenth : DenotesSigned ['0', '.', '1'] (1 / 10) :=
    denotes_tenths rfl (by decide) (by norm_num : ((1 : ℕ) : ℚ) / 10 = _)
  have tenths : DenotesSigned ['0', '.', '4'] (4 / 10) :=
    denotes_tenths rfl (by decide) (by norm_num : ((4 : ℕ) : ℚ) / 10 = _)
  have writes : Writes "x:0.1:0.1:0.4".toList ['x'] (1 / 10) (1 / 10) (4 / 10) :=
    ⟨⟨_, _, _, rfl, tenth, tenth, tenths⟩, 'x', [], rfl, rfl, by simp⟩
  have exact : exactSize (1 / 10) (1 / 10) (4 / 10) = 4 := by
    norm_num [exactSize]
  exact ⟨domain, accepted, writes, by norm_num, exact, size⟩

/-- With halves no point is too many and none is missing. -/
theorem counts_of_read_halves : ∃ domain, Domain.read "y:-1:0.5:1".toList = .ok domain ∧
    Writes "y:-1:0.5:1".toList ['y'] (-1) (1 / 2) 1 ∧ Counts (-1) (1 / 2) 1 domain.size ∧
    OnGrid (-1) (1 / 2) 1 ∧ (1 - -1 : ℚ) = (4 : ℕ) * (1 / 2) ∧ domain.size = 4 + 1 := by
  obtain ⟨domain, accepted, -⟩ := exists_of_observed
    (show (Domain.read "y:-1:0.5:1".toList).toOption.map Domain.size = some 5 by decide +kernel)
  have one : Number.Literal.Denotes ['1'] 1 := by
    simpa [Number.Literal.positional] using
      Number.Literal.Denotes.whole
        (show Formula.DigitRun ['1'] from ⟨List.cons_ne_nil _ _, by simp⟩)
  have half : DenotesSigned ['0', '.', '5'] (1 / 2) :=
    denotes_tenths rfl (by decide) (by norm_num : ((5 : ℕ) : ℚ) / 10 = _)
  have writes : Writes "y:-1:0.5:1".toList ['y'] (-1) (1 / 2) 1 :=
    ⟨⟨_, _, _, rfl, .minus one, half, .plain one⟩, 'y', [], rfl, rfl, by simp⟩
  have onGrid : OnGrid (-1) (1 / 2) 1 := ⟨-2, 1, 2, -1, by norm_num⟩
  have divides : (1 - -1 : ℚ) = (4 : ℕ) * (1 / 2) := by norm_num
  have counts := (counts_of_read accepted).2 _ _ _ _ writes
  exact ⟨domain, accepted, writes, counts, onGrid, divides,
    counts.whole onGrid.unrounded 4 divides⟩

end ParamSweep.Domain
