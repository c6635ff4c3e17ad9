import DramTiming.Proofs.Binary64.Scaling

/-!
# The power of two at a number

Two to the power of the logarithm of a number, rounded down, is about that number
(`isScaleOf_twoPow`): the logarithm is rounded, but not past the next whole number.  The exception
are the largest numbers.  Their logarithm is rounded up to 1024, and two to that power is infinite
(`isInfinite_twoPow`).
-/

namespace DramTiming.Binary64

variable {x y : Binary64}

/-! ### The digits of a logarithm -/

theorem log2Step_snd_lt {state : Nat × Nat} {count : Nat} (h : state.2 < 2 ^ count) (k : Nat) :
    (log2Step state k).2 < 2 ^ (count + 1) := by
  unfold log2Step
  dsimp only
  split <;> dsimp only <;> omega

theorem foldl_log2Step_snd_lt (ks : List Nat) {state : Nat × Nat} {count : Nat}
    (h : state.2 < 2 ^ count) : (ks.foldl log2Step state).2 < 2 ^ (count + ks.length) := by
  induction ks generalizing state count with
  | nil => exact h
  | cons k ks ih =>
    have hrest := ih (log2Step_snd_lt h k)
    rwa [Nat.add_assoc, Nat.add_comm 1] at hrest

/-- A logarithm is below the next whole number after its whole part. -/
theorem log2Fixed_lt (units places : Nat) :
    log2Fixed units places < ((units.log2 : Int) - places + 1) * (twoTo logPlaces : Nat) := by
  have hstart : (units * twoTo logPlaces / twoTo units.log2, 0).2 < 2 ^ 0 := Nat.one_pos
  have hdigits := foldl_log2Step_snd_lt (List.range logPlaces) hstart
  rw [List.length_range, Nat.zero_add] at hdigits
  have hpow : ((2 ^ logPlaces : Nat) : Int) = (twoTo logPlaces : Nat) := rfl
  unfold log2Fixed
  dsimp only
  rw [Int.add_mul, Int.one_mul, ← hpow]
  omega

/-- A state of the digits found so far and the factor that is left comes before another one if its
digits do, or its factor among equal digits. -/
def LogBefore (state state' : Nat × Nat) : Prop :=
  state.2 < state'.2 ∨ state.2 = state'.2 ∧ state.1 ≤ state'.1

theorem LogBefore.log2Step {state state' : Nat × Nat} (h : LogBefore state state') (k : Nat) :
    LogBefore (log2Step state k) (log2Step state' k) := by
  unfold LogBefore Binary64.log2Step
  dsimp only
  rcases h with hlt | ⟨heq, hle⟩
  · left
    split <;> split <;> dsimp only <;> omega
  · have hsquare : state.1 * state.1 / twoTo logPlaces ≤ state'.1 * state'.1 / twoTo logPlaces :=
      Nat.div_le_div_right (Nat.mul_le_mul hle hle)
    split <;> split <;> dsimp only <;> omega

theorem LogBefore.foldl_log2Step (ks : List Nat) {state state' : Nat × Nat}
    (h : LogBefore state state') :
    LogBefore (ks.foldl Binary64.log2Step state) (ks.foldl Binary64.log2Step state') := by
  induction ks generalizing state state' with
  | nil => exact h
  | cons k ks ih => exact ih (h.log2Step k)

/-- Logarithms grow with numbers of the same leading digit. -/
theorem log2Fixed_le_log2Fixed {units units' : Nat} (places : Nat) (h : units ≤ units')
    (hlog : units.log2 = units'.log2) : log2Fixed units places ≤ log2Fixed units' places := by
  have hfactor : units * twoTo logPlaces / twoTo units.log2 ≤
      units' * twoTo logPlaces / twoTo units.log2 :=
    Nat.div_le_div_right (Nat.mul_le_mul_right _ h)
  have hbefore : LogBefore (units * twoTo logPlaces / twoTo units.log2, 0)
      (units' * twoTo logPlaces / twoTo units.log2, 0) := .inr ⟨rfl, hfactor⟩
  have hdigits := hbefore.foldl_log2Step (List.range logPlaces)
  unfold log2Fixed
  dsimp only
  rw [← hlog]
  unfold LogBefore at hdigits
  omega

/-! ### Rounding down -/

/-- A whole number that is at least a ratio is at least its rounding, rounded down. -/
theorem floorInt_ofIntRatio_le {k num : Int} {den : Nat} (hk : k.natAbs ≤ 2 ^ 53) (hden : 0 < den)
    (h : num ≤ k * den) : (ofIntRatio num den).floorInt ≤ k := by
  have hpos : (0 : Int) < unitsPerOne := Int.natCast_pos.mpr unitsPerOne_pos
  have hsize : IsSize (k.natAbs * unitsPerOne) := isWhole_of_le hk
  rw [floorInt, ofIntRatio]
  refine Int.ediv_le_of_le_mul hpos ?_
  by_cases hnum : num < 0
  · rw [decide_eq_true hnum, signedUnits_of_negative rfl]
    rcases lt_or_ge k 0 with hkneg | hk0
    · -- Both are negative, and the whole number has the smaller size.
      have hle : k.natAbs * unitsPerOne * den ≤ num.natAbs * unitsPerOne := by
        have habs : k.natAbs * den ≤ num.natAbs := by
          have hneg := Int.mul_neg_of_neg_of_pos hkneg (Int.natCast_pos.mpr hden)
          rw [← Int.natAbs_natCast den, ← Int.natAbs_mul]
          omega
        calc k.natAbs * unitsPerOne * den = k.natAbs * den * unitsPerOne := by ring
          _ ≤ num.natAbs * unitsPerOne := Nat.mul_le_mul_right _ habs
      have hunits := le_units_ofUnits hsize hden hle true
      have hkabs : k = -(k.natAbs : Int) := by omega
      rw [hkabs, Int.neg_mul, Int.neg_le_neg_iff]
      exact_mod_cast hunits
    · exact (Int.neg_nonpos_of_nonneg (Int.natCast_nonneg _)).trans (Int.mul_nonneg hk0 hpos.le)
  · rw [decide_eq_false hnum, signedUnits_of_not_negative rfl]
    have hk0 : 0 ≤ k := by
      by_contra hkneg
      have := Int.mul_neg_of_neg_of_pos (Int.not_le.mp hkneg) (Int.natCast_pos.mpr hden)
      omega
    have hle : num.natAbs * unitsPerOne ≤ k.natAbs * unitsPerOne * den := by
      have habs : num.natAbs ≤ k.natAbs * den := by
        rw [← Int.natAbs_natCast den, ← Int.natAbs_mul]
        omega
      calc num.natAbs * unitsPerOne ≤ k.natAbs * den * unitsPerOne :=
            Nat.mul_le_mul_right _ habs
        _ = k.natAbs * unitsPerOne * den := by ring
    have hunits := (units_ofUnits_le hsize hden hle false).2
    have hkabs : k = (k.natAbs : Int) := by omega
    rw [hkabs]
    exact_mod_cast hunits

theorem floorInt_ofIntRatio_le_floorInt {num num' : Int} {den : Nat} (hden : 0 < den)
    (hnum : 0 ≤ num) (h : num ≤ num') :
    (ofIntRatio num den).floorInt ≤ (ofIntRatio num' den).floorInt := by
  rw [ofIntRatio, ofIntRatio, decide_eq_false (by omega), decide_eq_false (by omega), floorInt,
    floorInt, signedUnits_of_not_negative rfl, signedUnits_of_not_negative rfl]
  refine Int.ediv_le_ediv (Int.natCast_pos.mpr unitsPerOne_pos) (Int.ofNat_le.mpr ?_)
  refine (unitsOf_le_unitsOf_iff (Nat.min_le_left _ _) (Nat.min_le_left _ _)).mpr ?_
  refine roundMagnitude_le_roundMagnitude hden hden ?_
  gcongr
  omega

/-! ### The logarithm of a number -/

theorem log2_of_pos (hfinite : x.isFinite = true) (hsign : x.negative = false)
    (hne : x.magnitude ≠ 0) : log2 x = ofIntRatio (log2Fixed x.units 1074) (twoTo logPlaces) := by
  have hzero : x.isZero = false := Bool.eq_false_iff.mpr (hne ∘ isZero_iff.mp)
  rw [log2, logarithm, isNaN_eq_false hfinite, hzero, hsign, isInfinite_eq_false hfinite,
    if_neg Bool.false_ne_true, if_neg Bool.false_ne_true, if_neg Bool.false_ne_true,
    if_neg Bool.false_ne_true]

theorem units_ne_zero (hfinite : x.isFinite = true) (hne : x.magnitude ≠ 0) : x.units ≠ 0 :=
  fun h => hne ((units_eq_zero_iff hfinite).mp h)

/-- The logarithm rounded down is at most one above the place of the leading digit. -/
theorem floorInt_log2_le (hfinite : x.isFinite = true) (hsign : x.negative = false)
    (hne : x.magnitude ≠ 0) : (log2 x).floorInt ≤ (x.units.log2 : Int) - 1074 + 1 := by
  have hlog : x.units.log2 < 2098 := log2_units_lt hfinite (units_ne_zero hfinite hne)
  rw [log2_of_pos hfinite hsign hne]
  exact floorInt_ofIntRatio_le (by omega) (Nat.two_pow_pos _) (log2Fixed_lt x.units 1074).le

/-- Logarithms rounded down grow with numbers of the same leading digit, from one on. -/
theorem floorInt_log2_le_floorInt_log2 (hx : x.isFinite = true) (hxsign : x.negative = false)
    (hy : y.isFinite = true) (hysign : y.negative = false) (hle : x.magnitude ≤ y.magnitude)
    (hone : 1074 ≤ x.units.log2) (hlog : x.units.log2 = y.units.log2) :
    (log2 x).floorInt ≤ (log2 y).floorInt := by
  have hne : x.magnitude ≠ 0 := by
    intro hzero
    rw [(units_eq_zero_iff hx).mpr hzero, Nat.log2_zero] at hone
    omega
  have hunits := (units_le_units_iff hx hy).mpr hle
  rw [log2_of_pos hx hxsign hne, log2_of_pos hy hysign (by omega)]
  refine floorInt_ofIntRatio_le_floorInt (Nat.two_pow_pos _) ?_
    (log2Fixed_le_log2Fixed 1074 hunits hlog)
  refine le_trans (Int.mul_nonneg ?_ (Int.natCast_nonneg _)) (le_log2Fixed x.units 1074)
  omega

/-! ### Powers of two -/

/-- A power of two in range, in units. -/
theorem twoPow_of_le {n : Int} (hlo : -1074 ≤ n) (hhi : n ≤ 1023) :
    (twoPow n).isFinite = true ∧ (twoPow n).negative = false ∧
      (twoPow n).units = 2 ^ (n + 1074).toNat := by
  obtain ⟨hfinite, hunits⟩ := ofUnits_of_isSize
    (isSize_two_pow (e := (n + 1074).toNat) (by omega)) false
  rw [twoPow, if_neg (by omega)]
  exact ⟨hfinite, rfl, hunits⟩

/-- A power of two beyond the range. -/
theorem isInfinite_twoPow_of_le {n : Int} (h : 1024 ≤ n) : (twoPow n).isInfinite = true := by
  obtain ⟨e, he, hinfinity⟩ : ∃ e, e = 2098 ∧ unitsOf infinityMagnitude = 2 ^ e :=
    ⟨2098, rfl, by decide +kernel⟩
  rw [twoPow, if_neg (by omega), isInfinite_iff]
  refine Nat.le_antisymm (Nat.min_le_left _ _) (le_roundMagnitude_of_le one_pos le_rfl ?_)
  rw [hinfinity, Nat.mul_one]
  exact Nat.pow_le_pow_right two_pos (by omega)

/-! ### The largest numbers -/

/-- The smallest magnitude with a logarithm that is rounded up to 1024. -/
def overflowMagnitude : Nat := infinityMagnitude - 354

/-- Two to the power of the logarithm of `x` is infinite. -/
def OverflowsPower (x : Binary64) : Prop := overflowMagnitude ≤ x.magnitude

instance (x : Binary64) : Decidable x.OverflowsPower := inferInstanceAs (Decidable (_ ≤ _))

/-- The number with this magnitude and no minus sign. -/
def ofMagnitude (m : Nat) (h : m < infinityMagnitude) : Binary64 :=
  ⟨false, m, h.trans infinityMagnitude_lt⟩

/-- The smallest number with that magnitude. -/
def firstOverflow : Binary64 := ofMagnitude overflowMagnitude (by decide)

/-- The largest number below. -/
def lastBeforeOverflow : Binary64 := ofMagnitude (overflowMagnitude - 1) (by decide)

theorem floorInt_log2_firstOverflow :
    firstOverflow.units.log2 = 2097 ∧ (log2 firstOverflow).floorInt = 1024 := by decide +kernel

theorem floorInt_log2_lastBeforeOverflow :
    lastBeforeOverflow.units.log2 = 2097 ∧ (log2 lastBeforeOverflow).floorInt = 1023 := by
  decide +kernel

theorem log2_units_le_log2_units (hx : x.isFinite = true) (hy : y.isFinite = true)
    (hle : x.magnitude ≤ y.magnitude) : x.units.log2 ≤ y.units.log2 := by
  rw [Nat.log2_eq_log_two, Nat.log2_eq_log_two]
  exact Nat.log_mono_right ((units_le_units_iff hx hy).mpr hle)

theorem isInfinite_twoPow (hfinite : x.isFinite = true) (hsign : x.negative = false)
    (h : x.OverflowsPower) : (twoPow (log2 x).floorInt).isInfinite = true := by
  obtain ⟨hlog, hfloor⟩ := floorInt_log2_firstOverflow
  have hfirst : firstOverflow.isFinite = true := by decide
  have hle : firstOverflow.units.log2 ≤ x.units.log2 := log2_units_le_log2_units hfirst hfinite h
  have hlt : x.units.log2 < 2098 := log2_units_lt hfinite (fun hzero => by
    rw [hzero, hlog, Nat.log2_zero] at hle
    omega)
  have hmono := floorInt_log2_le_floorInt_log2 hfirst rfl hfinite hsign h (by omega) (by omega)
  exact isInfinite_twoPow_of_le (by omega)

/-- Below the largest numbers, two to the power of the logarithm, rounded down, is about the
number. -/
theorem isScaleOf_twoPow (hfinite : x.isFinite = true) (hsign : x.negative = false)
    (hne : x.magnitude ≠ 0) (h : ¬ x.OverflowsPower) :
    IsScaleOf (twoPow (log2 x).floorInt) x := by
  have hunits : x.units ≠ 0 := units_ne_zero hfinite hne
  have hlog : x.units.log2 < 2098 := log2_units_lt hfinite hunits
  have hlo := le_floorInt_log2 hfinite hsign hne
  have hhi := floorInt_log2_le hfinite hsign hne
  have hrange : (log2 x).floorInt ≤ 1023 := by
    by_cases hlast : x.units.log2 = 2097
    · obtain ⟨hlog', hfloor⟩ := floorInt_log2_lastBeforeOverflow
      have hbefore : lastBeforeOverflow.isFinite = true := by decide
      have hle : x.magnitude ≤ lastBeforeOverflow.magnitude :=
        Nat.le_sub_one_of_lt (Nat.not_le.mp h)
      exact (floorInt_log2_le_floorInt_log2 hfinite hsign hbefore rfl hle (by omega)
        (by omega)).trans_eq hfloor
    · omega
  obtain ⟨hscale, hscalesign, hscaleunits⟩ := twoPow_of_le (by omega) hrange
  refine ⟨hscale, hscalesign, ⟨_, hscaleunits⟩, ?_, ?_⟩
  · rw [hscaleunits]
    calc 2 ^ ((log2 x).floorInt + 1074).toNat ≤ 2 ^ (x.units.log2 + 1) :=
          Nat.pow_le_pow_right two_pos (by omega)
      _ = 2 * 2 ^ x.units.log2 := by rw [pow_succ, Nat.mul_comm]
      _ ≤ 2 * x.units := Nat.mul_le_mul_left 2 (Nat.log2_self_le hunits)
  · exact (units_lt_twoPow_floorInt_log2 hfinite hsign hne).2.2

end DramTiming.Binary64
