import DramTiming.Clock.Basic
import DramTiming.Decimal.Integer
import DramTiming.Proofs.Binary64.Midpoints

/-!
# Durations of cycles

A number of cycles is specified to take a thousand times that number divided by the clock, rounded
once.  It is computed by way of the period of the clock, which is rounded already.  So the duration
is the specified one or a neighbour of it: the same where no midpoint between neighbours separates
the two exact values (`trcdNs_spec`).  Only no cycles of a clock so slow that its period is infinite
have a duration that is not a number.
-/

namespace DramTiming

open Binary64

variable {cycles j : Nat} {clk : Binary64}

/-- The duration as it is specified: the product is divided. -/
def specifiedNs (cycles : Nat) (clk : Binary64) : Binary64 := Binary64.ofNat cycles * 1000 / clk

/-- A thousand, as the dividend of a quotient. -/
def thousand : Nat := 1000 * unitsPerOne * unitsPerOne

/-! ### What is rounded -/

theorem trcdNs_eq (cycles : Nat) (clk : Binary64) :
    trcdNs cycles clk =
      if clk.isZero then .error .fabricClock else .ok (Binary64.ofNat cycles * (1000 / clk)) := by
  unfold trcdNs cyclesToNs? periodNs?
  split <;> simp_all

theorem magnitude_ne_zero_of_not_isZero (hzero : clk.isZero = false) : clk.magnitude ≠ 0 :=
  fun h => by simp [isZero_iff.mpr h] at hzero

theorem units_pos_of_not_isZero (hfinite : clk.isFinite = true) (hzero : clk.isZero = false) :
    0 < clk.units :=
  Nat.pos_of_ne_zero (units_ne_zero hfinite (magnitude_ne_zero_of_not_isZero hzero))

theorem ofNat_spec (hcycles : cycles ≤ Decimal.max32) :
    (Binary64.ofNat cycles).isFinite = true ∧
      (Binary64.ofNat cycles).units = cycles * unitsPerOne :=
  ofNat_of_isWhole (isWhole_of_le (hcycles.trans (by decide)))

theorem thousand_spec :
    (1000 : Binary64).isFinite = true ∧ (1000 : Binary64).units = 1000 * unitsPerOne := by
  have hthousand : (1000 : Binary64) = Binary64.ofNat 1000 := rfl
  have hwhole : IsWhole 1000 := isWhole_of_le (by decide)
  rw [hthousand]
  exact ofNat_of_isWhole hwhole

/-- The period is rounded. -/
theorem period_eq (hfinite : clk.isFinite = true) (hzero : clk.isZero = false) :
    1000 / clk = ofUnits clk.negative thousand clk.units := by
  obtain ⟨hthousand, hunits⟩ := thousand_spec
  have hne := magnitude_ne_zero_of_not_isZero hzero
  have hsign : (1000 : Binary64).negative = false := rfl
  rw [div_of_isFinite hthousand hfinite hne, hunits, hsign, Bool.false_bne, thousand]

/-- The specified duration is rounded once, as the product is exact. -/
theorem specifiedNs_eq (hcycles : cycles ≤ Decimal.max32) (hfinite : clk.isFinite = true)
    (hzero : clk.isZero = false) :
    specifiedNs cycles clk = ofUnits clk.negative (cycles * thousand) clk.units := by
  obtain ⟨hcycles_finite, hcycles_units⟩ := ofNat_spec hcycles
  obtain ⟨hthousand, hunits⟩ := thousand_spec
  have hne := magnitude_ne_zero_of_not_isZero hzero
  have hwhole : IsWhole (cycles * 1000) := by
    refine isWhole_of_le ((Nat.mul_le_mul_right 1000 hcycles).trans ?_)
    decide
  have hproduct : Binary64.ofNat cycles * 1000 =
      ofUnits false (cycles * 1000 * unitsPerOne * unitsPerOne) unitsPerOne := by
    have hunits' : cycles * unitsPerOne * (1000 * unitsPerOne) =
        cycles * 1000 * unitsPerOne * unitsPerOne := by ring
    have hsign : ((Binary64.ofNat cycles).negative != (1000 : Binary64).negative) = false := rfl
    rw [mul_of_isFinite hcycles_finite hthousand, hcycles_units, hunits, hunits', hsign]
  have hproduct_finite : (Binary64.ofNat cycles * 1000).isFinite = true := by
    rw [hproduct]
    exact (units_ofUnits_le hwhole unitsPerOne_pos le_rfl false).1
  rw [specifiedNs, div_of_isFinite hproduct_finite hfinite hne, hproduct,
    units_ofUnits_mul hwhole unitsPerOne_pos, negative_ofUnits, Bool.false_bne, thousand,
    Nat.mul_assoc, Nat.mul_assoc, Nat.mul_assoc]

/-! ### Periods -/

theorem thousand_eq : thousand = 1000 * 2 ^ 2148 := by
  rw [thousand, unitsPerOne_eq, Nat.mul_assoc, ← pow_add]

theorem two_pow_mul_units_le_thousand (hfinite : clk.isFinite = true) :
    2 ^ 52 * clk.units ≤ thousand := by
  have hsteps : infinityMagnitude = 2046 * 2 ^ 52 + 2 ^ 52 := by decide
  have hinfinity : unitsOf infinityMagnitude = 2 ^ 52 * 2 ^ 2046 := by
    rw [hsteps, unitsOf_steps (by decide) (.inr le_rfl)]
  have hle : clk.units ≤ unitsOf infinityMagnitude :=
    (unitsOf_le_unitsOf_iff (isFinite_iff.mp hfinite).le le_rfl).mpr (isFinite_iff.mp hfinite).le
  calc 2 ^ 52 * clk.units ≤ 2 ^ 52 * (2 ^ 52 * 2 ^ 2046) :=
        Nat.mul_le_mul_left _ (hle.trans_eq hinfinity)
    _ = 2 ^ 2 * 2 ^ 2148 := by rw [← pow_add, ← pow_add, ← pow_add]
    _ ≤ thousand := by
        rw [thousand_eq]
        exact Nat.mul_le_mul_right _ (by decide)

/-- The period of a very slow clock is infinite. -/
theorem isInfinite_period_iff (hfinite : clk.isFinite = true) (hzero : clk.isZero = false) :
    (1000 / clk).isInfinite = true ↔ clk.units ≤ 1000 * 2 ^ 50 := by
  have hpos := units_pos_of_not_isZero hfinite hzero
  have hround : roundMagnitude thousand clk.units = infinityMagnitude ↔
      ¬ AtMost (infinityMagnitude - 1) thousand clk.units := by
    have hle := roundMagnitude_le thousand clk.units
    rw [← roundMagnitude_le_iff hpos (by decide)]
    have : 0 < infinityMagnitude := by decide
    omega
  have hsteps : infinityMagnitude - 1 = 2045 * 2 ^ 52 + (2 ^ 53 - 1) := by decide
  have hmiddle : midpoint (infinityMagnitude - 1) = (2 * (2 ^ 53 - 1) + 1) * 2 ^ 2045 := by
    rw [hsteps, midpoint_steps (by decide) (.inr (by decide))]
  have hthousand : 2 * thousand = 1000 * 2 ^ 104 * 2 ^ 2045 := by
    rw [thousand_eq, Nat.mul_assoc 1000, ← pow_add, Nat.mul_left_comm, ← pow_succ']
  have hodd : ¬ (infinityMagnitude - 1) % 2 = 0 := by decide
  have hgap : clk.units ≤ 1000 * 2 ^ 50 ∨ 1000 * 2 ^ 50 + 2 ^ 7 ≤ clk.units := by
    by_cases hle : clk.units ≤ 1000 * 2 ^ 50
    · exact .inl hle
    · -- Numbers of this size are multiples of `2 ^ 7`.
      have hdvd : 2 ^ 7 ∣ clk.units := two_pow_dvd_units (.inr (by omega))
      omega
  rw [period_eq hfinite hzero, isInfinite_iff]
  refine hround.trans ?_
  rw [AtMost, hmiddle, hthousand, Nat.mul_right_comm _ (2 ^ 2045),
    Nat.mul_lt_mul_right (Nat.two_pow_pos 2045)]
  simp only [hodd, and_false, or_false]
  clear hround hmiddle hthousand
  omega

/-! ### Durations -/

/-- The duration of some cycles is their number times the period, rounded again. -/
theorem duration_eq (hcycles : cycles ≤ Decimal.max32) (hpos : 0 < cycles)
    (hfinite : clk.isFinite = true) (hzero : clk.isZero = false) :
    Binary64.ofNat cycles * (1000 / clk) =
      ofUnits clk.negative (cycles * (1000 / clk).units) 1 := by
  obtain ⟨hcycles_finite, hcycles_units⟩ := ofNat_spec hcycles
  have hsign : ((Binary64.ofNat cycles).negative != (1000 / clk).negative) = clk.negative := by
    rw [period_eq hfinite hzero, negative_ofUnits]
    exact Bool.false_bne _
  by_cases hinf : (1000 / clk).isInfinite = true
  · have hne : (Binary64.ofNat cycles).isZero = false := by
      rw [Bool.eq_false_iff, Ne, isZero_iff, ← units_eq_zero_iff hcycles_finite, hcycles_units]
      exact (Nat.mul_pos hpos unitsPerOne_pos).ne'
    have hround : roundMagnitude (cycles * (1000 / clk).units) 1 = infinityMagnitude := by
      refine Nat.le_antisymm (roundMagnitude_le _ _) (le_roundMagnitude_of_le one_pos le_rfl ?_)
      rw [units, isInfinite_iff.mp hinf, Nat.mul_one]
      exact Nat.le_mul_of_pos_left _ hpos
    rw [mul_of_isInfinite hcycles_finite hinf, hne, if_neg Bool.false_ne_true, hsign]
    simp only [infinity, ofUnits, hround]
  · have hperiod : (1000 / clk).isFinite = true := by
      refine isFinite_of_not_isNaN_of_not_isInfinite ?_ hinf
      rw [period_eq hfinite hzero]
      exact isNaN_ofUnits _ _ _
    rw [mul_of_isFinite hcycles_finite hperiod, hsign, hcycles_units]
    refine ofUnits_congr unitsPerOne_pos one_pos ?_ _
    ring

theorem isFinite_period_iff (hfinite : clk.isFinite = true) (hzero : clk.isZero = false) :
    (1000 / clk).isFinite = true ↔ ¬ (1000 / clk).isInfinite = true := by
  have hnan : (1000 / clk).isNaN = false := by
    rw [period_eq hfinite hzero]
    exact isNaN_ofUnits _ _ _
  refine ⟨fun h => ?_, isFinite_of_not_isNaN_of_not_isInfinite hnan⟩
  rw [isInfinite_eq_false h]
  exact Bool.false_ne_true

/-- No cycles take no time, unless the period is infinite. -/
theorem duration_zero (hfinite : clk.isFinite = true) (hzero : clk.isZero = false) :
    Binary64.ofNat 0 * (1000 / clk) =
      if (1000 / clk).isInfinite then nan else zero clk.negative := by
  have hofNat : Binary64.ofNat 0 = zero false := zero_eq
  have hfinite_zero : (zero false).isFinite = true := (within_zero 0 false).isFinite
  rw [hofNat]
  by_cases hinf : (1000 / clk).isInfinite = true
  · rw [mul_of_isInfinite hfinite_zero hinf, if_pos hinf]
    rfl
  · have hunits : (zero false).units = 0 := rfl
    have hsign : ((zero false).negative != (1000 / clk).negative) = clk.negative := by
      rw [period_eq hfinite hzero, negative_ofUnits]
      exact Bool.false_bne _
    rw [mul_of_isFinite hfinite_zero ((isFinite_period_iff hfinite hzero).mpr hinf), hsign, hunits,
      Nat.zero_mul, ofUnits_zero unitsPerOne_pos, if_neg hinf]

/-- The two exact values are so close that no more than one number lies between what they are
rounded to. -/
theorem duration_close (cycles : Nat) (hfinite : clk.isFinite = true)
    (hzero : clk.isZero = false) :
    roundMagnitude (cycles * (1000 / clk).units) 1 ≤
        roundMagnitude (cycles * thousand) clk.units + 1 ∧
      roundMagnitude (cycles * thousand) clk.units ≤
        roundMagnitude (cycles * (1000 / clk).units) 1 + 1 := by
  have hclk := units_pos_of_not_isZero hfinite hzero
  rcases Nat.eq_zero_or_pos cycles with rfl | hpos
  · rw [Nat.zero_mul, Nat.zero_mul, roundMagnitude_zero one_pos, roundMagnitude_zero hclk]
    omega
  by_cases hinf : (1000 / clk).isInfinite = true
  · -- Then both are rounded to infinity.
    have hmagnitude := isInfinite_iff.mp hinf
    have hround : infinityMagnitude ≤ roundMagnitude (cycles * (1000 / clk).units) 1 := by
      refine le_roundMagnitude_of_le one_pos le_rfl ?_
      rw [units, hmagnitude, Nat.mul_one]
      exact Nat.le_mul_of_pos_left _ hpos
    have hround' : infinityMagnitude ≤ roundMagnitude (cycles * thousand) clk.units := by
      rw [← hmagnitude, period_eq hfinite hzero]
      refine roundMagnitude_le_roundMagnitude hclk hclk (Nat.mul_le_mul_right _ ?_)
      exact Nat.le_mul_of_pos_left _ hpos
    have := roundMagnitude_le (cycles * (1000 / clk).units) 1
    have := roundMagnitude_le (cycles * thousand) clk.units
    omega
  · have hperiod := (isFinite_period_iff hfinite hzero).mpr hinf
    rw [period_eq hfinite hzero] at hperiod ⊢
    obtain ⟨hupper, hlower⟩ :=
      units_ofUnits_close hclk (two_pow_mul_units_le_thousand hfinite) _ hperiod
    generalize (ofUnits clk.negative thousand clk.units).units = period at hupper hlower ⊢
    constructor
    · refine roundMagnitude_le_add_one one_pos hclk ?_
      calc 2 ^ 53 * (cycles * period * clk.units) = cycles * (2 ^ 53 * (period * clk.units)) := by ring
        _ ≤ cycles * ((2 ^ 53 + 1) * thousand) := Nat.mul_le_mul_left _ hupper
        _ = (2 ^ 53 + 1) * (cycles * thousand * 1) := by ring
    · refine roundMagnitude_le_add_one hclk one_pos ?_
      calc 2 ^ 53 * (cycles * thousand * 1) = cycles * (2 ^ 53 * thousand) := by ring
        _ ≤ cycles * ((2 ^ 53 + 1) * (period * clk.units)) := Nat.mul_le_mul_left _ hlower
        _ = (2 ^ 53 + 1) * (cycles * period * clk.units) := by ring

/-- A number of cycles that is a power of two leaves nothing to be rounded again. -/
theorem roundMagnitude_two_pow_mul (hfinite : clk.isFinite = true) (hzero : clk.isZero = false)
    (j : Nat) : roundMagnitude (2 ^ j * (1000 / clk).units) 1 =
      roundMagnitude (2 ^ j * thousand) clk.units := by
  have hclk := units_pos_of_not_isZero hfinite hzero
  have hfull := two_pow_mul_units_le_thousand hfinite
  have hunits : (1000 / clk).units = unitsOf (roundMagnitude thousand clk.units) := by
    rw [period_eq hfinite hzero]
    rfl
  have hperiod : 2 ^ 52 * 1 ≤ (1000 / clk).units := by
    rw [period_eq hfinite hzero]
    exact le_units_ofUnits (isSize_two_pow (by decide)) hclk hfull _
  have hround := roundMagnitude_unitsOf one_pos (roundMagnitude thousand clk.units)
  rw [Nat.mul_one] at hround
  rw [roundMagnitude_mul_two_pow one_pos hperiod, roundMagnitude_mul_two_pow hclk hfull, hunits,
    hround]
  have := roundMagnitude_le thousand clk.units
  omega

/-- Durations that are numbers are rounded twice. -/
theorem duration_eq_of_not_isNaN (hcycles : cycles ≤ Decimal.max32) (hfinite : clk.isFinite = true)
    (hzero : clk.isZero = false) (hnan : (Binary64.ofNat cycles * (1000 / clk)).isNaN = false) :
    Binary64.ofNat cycles * (1000 / clk) =
      ofUnits clk.negative (cycles * (1000 / clk).units) 1 := by
  rcases Nat.eq_zero_or_pos cycles with rfl | hpos
  · rw [duration_zero hfinite hzero] at hnan ⊢
    split at hnan
    · simp [isNaN_nan] at hnan
    · next hinf => rw [if_neg hinf, Nat.zero_mul, ofUnits_zero one_pos]
  · exact duration_eq hcycles hpos hfinite hzero

theorem isNaN_duration_iff (hcycles : cycles ≤ Decimal.max32) (hfinite : clk.isFinite = true)
    (hzero : clk.isZero = false) :
    (Binary64.ofNat cycles * (1000 / clk)).isNaN = true ↔
      cycles = 0 ∧ clk.units ≤ 1000 * 2 ^ 50 := by
  rw [← isInfinite_period_iff hfinite hzero]
  rcases Nat.eq_zero_or_pos cycles with rfl | hpos
  · rw [duration_zero hfinite hzero]
    split
    · next hinf => exact iff_of_true isNaN_nan ⟨rfl, hinf⟩
    · next hinf =>
      have hnan : (zero clk.negative).isNaN = false := isNaN_eq_false (within_zero 0 _).isFinite
      exact iff_of_false (by simp [hnan]) fun h => hinf h.2
  · rw [duration_eq hcycles hpos hfinite hzero]
    exact iff_of_false (by simp [isNaN_ofUnits]) fun h => hpos.ne' h.1

/-- Every number of cycles of a clock that does not stand still has a duration.  It is not a number
exactly for no cycles of a clock with an infinite period.  Otherwise it is the specified duration or
a neighbour of it: the specified one if and only if no midpoint between neighbours lies between
the two exact values.  So it is for no cycles, for numbers of cycles that are powers of two, and for
clocks with a period that is not rounded. -/
theorem trcdNs_spec (hcycles : cycles ≤ Decimal.max32) (hfinite : clk.isFinite = true)
    (hzero : clk.isZero = false) :
    specifiedNs cycles clk = ofUnits clk.negative (cycles * thousand) clk.units ∧
    ∃ ns, trcdNs cycles clk = .ok ns ∧
      (ns.isNaN = true ↔ cycles = 0 ∧ clk.units ≤ 1000 * 2 ^ 50) ∧
      (ns.isNaN = false →
        ns.negative = clk.negative ∧
        ns.magnitude ≤ (specifiedNs cycles clk).magnitude + 1 ∧
        (specifiedNs cycles clk).magnitude ≤ ns.magnitude + 1 ∧
        (ns = specifiedNs cycles clk ↔ ∀ m < infinityMagnitude,
          AtMost m (cycles * (1000 / clk).units) 1 ↔ AtMost m (cycles * thousand) clk.units) ∧
        (cycles = 0 ∨ (∃ j, cycles = 2 ^ j) ∨ (1000 / clk).units * clk.units = thousand →
          ns = specifiedNs cycles clk)) := by
  have hclk := units_pos_of_not_isZero hfinite hzero
  have hspecified := specifiedNs_eq hcycles hfinite hzero
  obtain ⟨hle, hge⟩ := duration_close cycles hfinite hzero
  refine ⟨hspecified, _, by rw [trcdNs_eq, hzero, if_neg Bool.false_ne_true],
    isNaN_duration_iff hcycles hfinite hzero, fun hnan => ?_⟩
  rw [duration_eq_of_not_isNaN hcycles hfinite hzero hnan, hspecified, ofUnits_eq_ofUnits_iff,
    magnitude_ofUnits, magnitude_ofUnits]
  refine ⟨negative_ofUnits _ _ _, hle, hge, roundMagnitude_eq_iff one_pos hclk, ?_⟩
  rintro (rfl | ⟨j, rfl⟩ | hexact)
  · rw [Nat.zero_mul, Nat.zero_mul, roundMagnitude_zero one_pos, roundMagnitude_zero hclk]
  · exact roundMagnitude_two_pow_mul hfinite hzero j
  · apply roundMagnitude_congr one_pos hclk
    rw [Nat.mul_assoc, hexact, Nat.mul_one]

/-- A clock of 400 megahertz has a period of two and a half nanoseconds, which is not rounded. -/
theorem trcdNs_spec_sample : ∃ ns, trcdNs 7 400 = .ok ns ∧ ns = specifiedNs 7 400 := by
  have hcycles : 7 ≤ Decimal.max32 := by decide
  obtain ⟨hfinite, hzero, hfast, hexact⟩ : (400 : Binary64).isFinite = true ∧
      (400 : Binary64).isZero = false ∧ ¬ (400 : Binary64).units ≤ 1000 * 2 ^ 50 ∧
      (1000 / 400 : Binary64).units * (400 : Binary64).units = thousand := by decide +kernel
  obtain ⟨-, ns, hok, hnan, hspec⟩ := trcdNs_spec hcycles hfinite hzero
  have hvalue : ns.isNaN = false := Bool.eq_false_iff.mpr fun h => hfast (hnan.mp h).2
  obtain ⟨-, -, -, -, hsame⟩ := hspec hvalue
  exact ⟨ns, hok, hsame (.inr (.inr hexact))⟩

/-- At 150 megahertz the period is rounded up, and seven of them are the neighbour of the specified
duration.  The period of a clock of `1e-310` megahertz is infinite, and none of them are no number
instead of zero. -/
theorem trcdNs_not_specified :
    trcdNs 7 150 = .ok 46.66666666666667 ∧ specifiedNs 7 150 = 46.666666666666664 ∧
      (46.66666666666667 : Binary64) ≠ 46.666666666666664 ∧
      trcdNs 0 1e-310 = .ok nan ∧ specifiedNs 0 1e-310 = 0 := by
  decide +kernel

end DramTiming
