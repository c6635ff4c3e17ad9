import DramTiming.Proofs.Binary64.Logarithm
import DramTiming.Proofs.Binary64.Order
import DramTiming.Proofs.Binary64.SquareRoot
import DramTiming.Statistics.StudentT

/-!
# The range of p-values

The Student variable of a coefficient inside of minus one and one is finite: one minus the square
is at least `2 ^ -53` after rounding.  So it only takes the distribution's values at finite
numbers to be probabilities for the p-value to be one (`pValueWith?_between`).
-/

namespace DramTiming.Statistics

open Binary64

variable {r : Binary64} {n : Nat} {exceeds? : Binary64 → Binary64 → Option Binary64}

/-- At finite arguments, with at least one degree of freedom and a variable that is not negative,
a distribution gives numbers from zero to one. -/
def GivesProbabilities (exceeds? : Binary64 → Binary64 → Option Binary64) : Prop :=
  ∀ freedom t, freedom.isFinite = true → le 1 freedom = true → t.isFinite = true →
    le 0 t = true → ∃ p, exceeds? freedom t = some p ∧ le 0 p = true ∧ le p 1 = true

/-! ### The Student variable -/

/-- The largest magnitude below that of one. -/
def belowOne : Nat := (1 : Binary64).magnitude - 1

/-- How many units there are from there to one. -/
def stepBelowOne : Nat := (1 : Binary64).units - unitsOf belowOne

theorem belowOne_lt : belowOne < infinityMagnitude :=
  (Nat.sub_le _ _).trans_lt (isFinite_iff.mp one_spec.2.1)

theorem unitsOf_belowOne_le : unitsOf belowOne ≤ (1 : Binary64).units :=
  (unitsOf_le_unitsOf_iff belowOne_lt.le (isFinite_iff.mp one_spec.2.1).le).mpr (Nat.sub_le _ _)

theorem unitsOf_belowOne : unitsOf belowOne + stepBelowOne = (1 : Binary64).units := by
  rw [stepBelowOne, Nat.add_sub_of_le unitsOf_belowOne_le]

/-- Two to the power of `-53`. -/
theorem stepBelowOne_eq : stepBelowOne = 2 ^ 1021 := by decide +kernel

theorem stepBelowOne_pos : 0 < stepBelowOne := by
  rw [stepBelowOne_eq]
  exact pow_pos two_pos 1021

theorem isSize_stepBelowOne : IsSize stepBelowOne := by
  rw [stepBelowOne_eq]
  exact isSize_two_pow (by decide)

theorem within_one_iff : Within 1 r ↔ r.magnitude ≤ (1 : Binary64).magnitude := by
  obtain ⟨-, hone, hunits⟩ := one_spec
  constructor
  · intro h
    rw [← units_le_units_iff h.isFinite hone, hunits, ← Nat.one_mul unitsPerOne]
    exact h.units_le
  · intro h
    have hfinite : r.isFinite = true := isFinite_iff.mpr (h.trans_lt (isFinite_iff.mp hone))
    refine ⟨hfinite, ?_⟩
    rw [Nat.one_mul, ← hunits, units_le_units_iff hfinite hone]
    exact h

theorem magnitude_le_belowOne (h : lt r.abs 1 = true) : r.magnitude ≤ belowOne := by
  have hkey : r.abs.numericKey = r.magnitude := numericKey_of_not_negative rfl
  have hlt := (lt_iff.mp h).2.2
  rw [hkey, numericKey_of_not_negative one_spec.1] at hlt
  unfold belowOne
  omega

/-- One minus the square of something smaller stays clear of zero. -/
theorem one_sub_square_spec (h : r.magnitude ≤ belowOne) :
    (1 - r * r).isFinite = true ∧ (1 - r * r).negative = false ∧
      stepBelowOne ≤ (1 - r * r).units := by
  have hfinite : r.isFinite = true := isFinite_iff.mpr (h.trans_lt belowOne_lt)
  have hunits : r.units ≤ unitsOf belowOne :=
    (unitsOf_le_unitsOf_iff (h.trans belowOne_lt.le) belowOne_lt.le).mpr h
  have hsize : IsSize (unitsOf belowOne) := ⟨belowOne, belowOne_lt, rfl⟩
  have hsquare : r * r = ofUnits false (r.units * r.units) unitsPerOne := by
    rw [mul_of_isFinite hfinite hfinite, bne_self_eq_false]
  -- Its exact square is not above itself, so the rounded one is not above `belowOne` either.
  obtain ⟨hround, hle⟩ : (r * r).isFinite = true ∧ (r * r).units ≤ unitsOf belowOne := by
    rw [hsquare]
    have hone := unitsOf_belowOne_le.trans_eq one_spec.2.2
    exact units_ofUnits_le hsize unitsPerOne_pos (Nat.mul_le_mul hunits (hunits.trans hone)) false
  have hstep := unitsOf_belowOne
  have hpos := stepBelowOne_pos
  have hsign : (r * r).negative = false := by
    rw [hsquare]
    rfl
  have hone := one_spec.2.1
  obtain ⟨m, hm, hunitsOne⟩ : IsSize (1 : Binary64).units :=
    ⟨_, isFinite_iff.mp hone, rfl⟩
  rw [sub_of_lt hone hround one_spec.1 hsign (by omega)]
  exact ⟨(units_ofUnits_le ⟨m, hm, hunitsOne⟩ one_pos (by omega) false).1, rfl,
    le_units_ofUnits isSize_stepBelowOne one_pos (by omega) false⟩

theorem zero_lt_one_sub_square (h : r.magnitude ≤ belowOne) : lt 0 (1 - r * r) = true := by
  obtain ⟨hfinite, hsign, hunits⟩ := one_sub_square_spec h
  refine zero_lt_iff.mpr ⟨isNaN_eq_false hfinite, hsign, fun hzero => ?_⟩
  have hpos := stepBelowOne_pos
  rw [(units_eq_zero_iff hfinite).mpr hzero] at hunits
  omega

/-- There is at least one degree of freedom, and there are finitely many. -/
theorem freedomOf_spec (htwo : 2 < n) (hn : n ≤ 2 ^ 64) :
    Within (2 ^ 64) (freedomOf n) ∧ le 1 (freedomOf n) = true := by
  have hwithin : Within (2 ^ 64) (freedomOf n) :=
    within_ofNat (isWhole_two_pow (by decide)) (by omega)
  have hunits : 1 * unitsPerOne ≤ (freedomOf n).units :=
    le_units_ofNat (isWhole_of_le (by decide)) (by omega)
  rw [Nat.one_mul, ← one_spec.2.2] at hunits
  have hmagnitude := (units_le_units_iff one_spec.2.1 hwithin.isFinite).mp hunits
  exact ⟨hwithin, one_le_iff.mpr ⟨isNaN_eq_false hwithin.isFinite, rfl, hmagnitude⟩⟩

theorem isFinite_studentOf (h : r.magnitude ≤ belowOne) (htwo : 2 < n) (hn : n ≤ 2 ^ 64) :
    (studentOf r (freedomOf n)).isFinite = true := by
  obtain ⟨hfreedom, -⟩ := freedomOf_spec htwo hn
  obtain ⟨hfinite, hsign, hunits⟩ := one_sub_square_spec h
  obtain ⟨-, -, hne⟩ := zero_lt_iff.mp (zero_lt_one_sub_square h)
  -- The divisor is at least `2 ^ -53`: the quotient is at most `2 ^ 118`, and its root `2 ^ 59`.
  have hsteps : 2 ^ 64 * unitsPerOne ≤ 2 ^ 59 * 2 ^ 59 * stepBelowOne := by
    rw [unitsPerOne_eq, stepBelowOne_eq, ← pow_add, ← pow_add, ← pow_add]
    exact pow_le_pow_right₀ one_le_two (by decide)
  have hquotient : Within (2 ^ 59 * 2 ^ 59) (freedomOf n / (1 - r * r)) := by
    refine within_div hfreedom.isFinite (isNaN_eq_false hfinite) hne (fun _ => ?_) ?_
    · exact (hfreedom.units_le.trans hsteps).trans (Nat.mul_le_mul_left _ hunits)
    · rw [← pow_add]
      exact isWhole_two_pow (by decide)
  have hroot : Within (2 ^ 59) (sqrt (freedomOf n / (1 - r * r))) :=
    hquotient.sqrt (negative_div rfl hsign) (isWhole_two_pow (by decide))
  have hr : Within 1 r := within_one_iff.mpr (h.trans (Nat.sub_le _ _))
  refine (hr.mul hroot ?_).isFinite
  rw [Nat.one_mul]
  exact isWhole_two_pow (by decide)

/-! ### P-values -/

theorem within_one_of_between (hle : le 0 r = true) (hle' : le r 1 = true) : Within 1 r := by
  obtain ⟨-, -, hzero⟩ := le_iff.mp hle
  obtain ⟨-, -, hone⟩ := le_iff.mp hle'
  rw [numericKey_of_not_negative one_spec.1] at hone
  rw [numericKey_zero] at hzero
  rw [within_one_iff, ← natAbs_numericKey r]
  omega

/-- Two pairs prove nothing. -/
theorem pValueWith?_of_le (exceeds? : Binary64 → Binary64 → Option Binary64) (r : Binary64)
    (h : n ≤ 2) : pValueWith? exceeds? r n = some 1 := by
  rw [pValueWith?, if_pos h]

/-- A coefficient of at least one leaves no doubt. -/
theorem pValueWith?_of_one_le (exceeds? : Binary64 → Binary64 → Option Binary64) (htwo : 2 < n)
    (h : le 1 r.abs = true) : pValueWith? exceeds? r n = some 0 := by
  rw [pValueWith?, if_neg htwo.not_ge, if_pos h]

theorem pValueWith?_of_lt_one (exceeds? : Binary64 → Binary64 → Option Binary64) (htwo : 2 < n)
    (h : lt r.abs 1 = true) : pValueWith? exceeds? r n =
      (exceeds? (freedomOf n) (studentOf r (freedomOf n)).abs).map fun p => clamp (2 * p) 0 1 := by
  have hle := (not_le_iff_lt isNaN_one (lt_iff.mp h).1).mpr h
  rw [pValueWith?, if_neg htwo.not_ge, if_neg hle]

/-- The p-value of a coefficient that is a number is one, zero, or from the distribution at finite
arguments. -/
theorem pValueWith?_cases (exceeds? : Binary64 → Binary64 → Option Binary64)
    (hnan : r.isNaN = false) (hn : n ≤ 2 ^ 64) :
    pValueWith? exceeds? r n = some 1 ∨ pValueWith? exceeds? r n = some 0 ∨
      ∃ freedom t, freedom.isFinite = true ∧ le 1 freedom = true ∧ t.isFinite = true ∧
        le 0 t = true ∧
        pValueWith? exceeds? r n = (exceeds? freedom t).map fun p => clamp (2 * p) 0 1 := by
  rcases Nat.lt_or_ge 2 n with htwo | htwo
  · by_cases hone : le 1 r.abs = true
    · exact .inr (.inl (pValueWith?_of_one_le exceeds? htwo hone))
    · have hlt := (not_le_iff_lt isNaN_one (y := r.abs) hnan).mp hone
      have hstudent := isFinite_studentOf (magnitude_le_belowOne hlt) htwo hn
      obtain ⟨hfreedom, hle⟩ := freedomOf_spec htwo hn
      exact .inr (.inr ⟨freedomOf n, (studentOf r (freedomOf n)).abs, hfreedom.isFinite, hle,
        hstudent, zero_le_of_not_negative (isNaN_eq_false hstudent) rfl,
        pValueWith?_of_lt_one exceeds? htwo hlt⟩)
  · exact .inl (pValueWith?_of_le exceeds? r htwo)

/-- A coefficient that is a number has a p-value, and that is a number from zero to one. -/
theorem pValueWith?_between (hexceeds : GivesProbabilities exceeds?) (hnan : r.isNaN = false)
    (hn : n ≤ 2 ^ 64) :
    ∃ p, pValueWith? exceeds? r n = some p ∧ le 0 p = true ∧ le p 1 = true := by
  obtain h | h | ⟨freedom, t, hfreedom, hle, ht, hpos, h⟩ := pValueWith?_cases exceeds? hnan hn
  · exact ⟨1, h, le_zero_one, le_refl isNaN_one⟩
  · exact ⟨0, h, le_refl isNaN_zero, le_zero_one⟩
  · obtain ⟨p, hp, hzero, hone⟩ := hexceeds freedom t hfreedom hle ht hpos
    rw [hp] at h
    refine ⟨_, h, clamp_between ?_ le_zero_one⟩
    have htwice : Within (2 * 1) (2 * p) := by
      refine Within.mul ?_ (within_one_of_between hzero hone) (isWhole_of_le (by decide))
      exact within_ofNat (isWhole_of_le (by decide)) le_rfl
    exact isNaN_eq_false htwice.isFinite

end DramTiming.Statistics
