import ParamSweep.Proofs.Number.Fixed
import ParamSweep.Timings

/-!
# Sums and averages of durations

Durations are added one by one and every partial sum has to be stored. No duration takes anything
away, so a partial sum that cannot be stored is never made good by those behind it: durations can be
added exactly if their exact sum can be stored, and that is then what they add up to.

The average of durations that can be added can be stored, too. As long as it is formed in whole
nanoseconds it is no more than the sum. Formed in floats it is a quotient whose dividend has little
more than 64 digits before the point, and whose divisor has at least 33.
-/

namespace ParamSweep

open Number (Binary64 value? nearest bound)

namespace Duration

/-- The nanoseconds of durations, added up. -/
def total (durations : List Duration) : ℕ := (durations.map nanoseconds).sum

/-- A duration in front adds its nanoseconds. -/
@[simp] theorem total_cons (duration : Duration) (durations : List Duration) :
    total (duration :: durations) = duration.nanoseconds + total durations :=
  List.sum_cons

/-- There are durations that can be stored. -/
theorem limit_pos : 0 < limit := by decide

/-- Durations are added to another one if the exact sum of all can be stored. -/
theorem foldlM_add? (durations : List Duration) {start : Duration}
    (stored : start.nanoseconds < limit) :
    durations.foldlM add? start =
      if start.nanoseconds + total durations < limit then
        some ⟨start.nanoseconds + total durations⟩
      else none := by
  induction durations generalizing start with
  | nil => exact (if_pos stored).symm
  | cons duration durations inductionHypothesis =>
    rw [List.foldlM_cons, total_cons, ← Nat.add_assoc, add?]
    by_cases fits : (start.add duration).nanoseconds < limit
    · rw [if_pos fits]
      exact inductionHypothesis fits
    · have beyond : ¬ start.nanoseconds + duration.nanoseconds + total durations < limit :=
        fun small => fits (Nat.lt_of_le_of_lt (Nat.le_add_right _ _) small)
      rw [if_neg fits, if_neg beyond]
      rfl

/-- The sum of durations is the exact one, if that can be stored. -/
theorem sum?_eq (durations : List Duration) :
    sum? durations = if total durations < limit then some ⟨total durations⟩ else none := by
  have added : sum? durations = _ := foldlM_add? durations limit_pos
  rwa [show zero.nanoseconds = 0 from rfl, Nat.zero_add] at added

/-- A sum that is stored is below the limit. -/
theorem lt_limit_of_sum? {durations : List Duration} {sum : Duration}
    (added : sum? durations = some sum) : sum.nanoseconds < limit := by
  rw [sum?_eq] at added
  split at added
  next stored => exact Option.some.inj added ▸ stored
  next => cases added

end Duration

/-! ### Numbers of seconds -/

namespace Number

/-- Rounding goes up by one at most. -/
theorem roundHalfEven_le (numerator denominator : ℕ) :
    roundHalfEven numerator denominator ≤ numerator / denominator + 1 := by
  rw [roundHalfEven]
  split
  · exact Nat.le_succ _
  · split <;> omega

/-- What is nearest to a number below a power of two stands for one itself. -/
theorem IsNearest.exists_value {q : ℚ} {x : Float} (isNearest : IsNearest q x) (exponent : ℤ)
    (least : -1074 ≤ exponent) (most : exponent < 1024) (nonnegative : 0 ≤ q)
    (below : q ≤ 2 ^ exponent) : ∃ value, value? x = some value ∧ 0 ≤ value ∧
      value ≤ 2 ^ exponent := by
  have above := nearest_nonneg nonnegative
  have upper := (isBinary64_zpow least most).nearest_le below
  have inRange : |nearest q| < bound := by
    rw [abs_of_nonneg above, bound, ← zpow_natCast]
    exact upper.trans_lt (zpow_lt_zpow_right₀ one_lt_two (by exact_mod_cast most))
  exact ⟨nearest q, isNearest.finite inRange, above, upper⟩

/-- A float that is not below zero is the quotient of its numerator and its denominator. -/
theorem exists_finite_of_nonneg {x : Float} {value : ℚ} (known : value? x = some value)
    (nonnegative : 0 ≤ value) : ∃ negative mantissa exponent,
      Binary64.ofFloat x = .finite negative mantissa exponent ∧
        (negative && decide (mantissa ≠ 0)) = false ∧
        (Binary64.numerator mantissa exponent : ℚ) / Binary64.denominator exponent = value := by
  rw [value?] at known
  cases exact : Binary64.ofFloat x with
  | finite negative mantissa exponent =>
    rw [exact] at known
    refine ⟨negative, mantissa, exponent, rfl, ?_⟩
    rw [Binary64.numerator_div_denominator]
    cases negative with
    | false => exact ⟨rfl, Option.some.inj known⟩
    | true =>
      have opposite : -((mantissa : ℚ) * 2 ^ exponent) = value := Option.some.inj known
      have none : mantissa = 0 := by
        by_contra some
        have size := magnitude_pos (Nat.pos_of_ne_zero some) exponent
        linarith
      subst none
      simpa using opposite
  | infinite negative =>
    rw [exact] at known
    cases known
  | notANumber =>
    rw [exact] at known
    cases known

end Number

namespace Duration

/-- Not too many seconds are a duration that can be stored. -/
theorem exists_ofSeconds? {seconds : Float} {value : ℚ} (known : value? seconds = some value)
    (nonnegative : 0 ≤ value) (few : value ≤ 2 ^ 33) :
    ∃ duration, ofSeconds? seconds = some duration := by
  obtain ⟨negative, mantissa, exponent, exact, sign, rfl⟩ :=
    Number.exists_finite_of_nonneg known nonnegative
  have divides := Binary64.denominator_pos exponent
  have whole : Binary64.numerator mantissa exponent ≤ 2 ^ 33 * Binary64.denominator exponent := by
    rw [div_le_iff₀ (Nat.cast_pos.mpr divides)] at few
    exact_mod_cast few
  have least : Binary64.numerator mantissa exponent * nanosecondsPerSecond /
      Binary64.denominator exponent ≤ 2 ^ 33 * nanosecondsPerSecond := by
    refine Nat.div_le_of_le_mul ?_
    calc Binary64.numerator mantissa exponent * nanosecondsPerSecond
      _ ≤ 2 ^ 33 * Binary64.denominator exponent * nanosecondsPerSecond :=
        Nat.mul_le_mul_right _ whole
      _ = Binary64.denominator exponent * (2 ^ 33 * nanosecondsPerSecond) := by ring
  have rounded := Number.roundHalfEven_le
    (Binary64.numerator mantissa exponent * nanosecondsPerSecond) (Binary64.denominator exponent)
  have room : 2 ^ 33 * nanosecondsPerSecond + 1 < limit := by decide
  refine ⟨⟨Number.roundHalfEven (Binary64.numerator mantissa exponent * nanosecondsPerSecond)
    (Binary64.denominator exponent)⟩, ?_⟩
  simp only [ofSeconds?, exact, sign, Bool.false_eq_true, if_false]
  exact if_pos (by omega)

/-- Half of a nanosecond goes to the even neighbour. -/
example : ofSeconds? 0.0009765625 = some ⟨976562⟩ := by decide +kernel

/-- A duration that can be stored has not too many seconds. -/
theorem exists_value_toSeconds {duration : Duration} (stored : duration.nanoseconds < limit) :
    ∃ value, value? duration.toSeconds = some value ∧ 0 ≤ value ∧ value ≤ 2 ^ (65 : ℤ) := by
  have seconds : duration.seconds < 2 ^ 64 :=
    Nat.div_lt_of_lt_mul (stored.trans_eq (Nat.mul_comm _ _))
  have fraction : duration.fraction < 2 ^ 30 :=
    (Nat.mod_lt _ (by decide)).trans (by decide)
  have giga : value? 1000000000 = some ((1000000000 : ℕ) : ℚ) :=
    (Number.isNearest_ofNat 1000000000).value?_eq (Number.isBinary64_natCast (by norm_num))
  obtain ⟨first, knownFirst, aboveFirst, belowFirst⟩ :=
    (Number.isNearest_ofNat duration.seconds).exists_value 64 (by norm_num)
      (by norm_num) (Nat.cast_nonneg _) (by exact_mod_cast seconds.le)
  have exactFraction := (Number.isNearest_ofNat duration.fraction).value?_eq
    (Number.isBinary64_natCast (by omega))
  have few : (duration.fraction : ℚ) / (1000000000 : ℕ) ≤ 2 ^ (1 : ℤ) := by
    have units : (duration.fraction : ℚ) ≤ 2 ^ 30 := by exact_mod_cast fraction.le
    rw [div_le_iff₀ (by norm_num)]
    exact units.trans (by norm_num)
  obtain ⟨rest, knownRest, aboveRest, belowRest⟩ :=
    (Number.isNearest_div exactFraction giga (by norm_num)).exists_value 1
      (by norm_num) (by norm_num) (by positivity) few
  exact (Number.isNearest_add knownFirst knownRest).exists_value 65 (by norm_num) (by norm_num)
    (by positivity) (by norm_num at belowFirst belowRest ⊢; linarith)

end Duration

namespace Timings

open Duration

/-- The quotient of the seconds and a count beyond 32 bits is small.

Proof: a count beyond the range of floats is infinite as a float, and nothing is left of the
seconds; any other is at least `2 ^ 32`, also when it is rounded. -/
theorem exists_value_quotient {sum : Duration} (stored : sum.nanoseconds < limit) {count : ℕ}
    (many : wholeLimit ≤ count) :
    ∃ value, value? (sum.toSeconds / Float.ofNat count) = some value ∧ 0 ≤ value ∧
      value ≤ 2 ^ (33 : ℤ) := by
  obtain ⟨seconds, known, above, below⟩ := exists_value_toSeconds stored
  have near := Number.isNearest_ofNat count
  by_cases inRange : |nearest count| < bound
  · have least : (2 : ℚ) ^ (32 : ℤ) ≤ nearest count := by
      refine (Number.isBinary64_zpow (by norm_num) (by norm_num)).le_nearest ?_
      exact_mod_cast many
    have positive : 0 < nearest count := (Number.two_zpow_pos 32).trans_le least
    refine (Number.isNearest_div known (near.finite inRange) positive.ne').exists_value 33
      (by norm_num) (by norm_num) (div_nonneg above positive.le) ?_
    rw [div_le_iff₀ positive]
    calc seconds
      _ ≤ 2 ^ (65 : ℤ) := below
      _ = 2 ^ (33 : ℤ) * 2 ^ (32 : ℤ) := by norm_num
      _ ≤ 2 ^ (33 : ℤ) * nearest count := mul_le_mul_of_nonneg_left least (by positivity)
  · exact ⟨0, Number.value?_div_infinite known (near.infinite (not_lt.mp inRange)), le_refl 0,
      by positivity⟩

/-- Times that can be added up have an average that can be stored. -/
theorem exists_average? {sum : Duration} (stored : sum.nanoseconds < limit) (count : ℕ) :
    ∃ average, average? sum count = some average := by
  unfold average?
  split
  next => exact ⟨_, rfl⟩
  next =>
    split
    next => exact ⟨_, rfl⟩
    next many =>
      obtain ⟨value, known, above, below⟩ := exists_value_quotient stored (Nat.not_lt.mp many)
      exact exists_ofSeconds? known above (by exact_mod_cast below)

end Timings

end ParamSweep
