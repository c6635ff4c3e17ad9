import DramTiming.Binary64.Logarithm
import DramTiming.Proofs.Binary64.Bounds

/-!
# Powers of two from logarithms

The logarithm to base two, rounded down, is at least the place of the leading digit.  So two to
that power is more than half of the number (`units_lt_twoPow_floorInt_log2`).
-/

namespace DramTiming.Binary64

variable {x : Binary64}

theorem isSize_two_pow {e : Nat} (h : e ≤ 2097) : IsSize (2 ^ e) := by
  by_cases hsmall : e ≤ 2044
  · have := isSize_mul_two_pow (k := 1) (by decide) hsmall
    rwa [one_mul] at this
  · obtain ⟨d, rfl⟩ : ∃ d, e = 53 + d := ⟨e - 53, by omega⟩
    rw [pow_add]
    exact isSize_mul_two_pow le_rfl (by omega)

theorem isWhole_two_pow_of_le {e : Nat} (h : e ≤ 1023) : IsWhole (2 ^ e) := by
  have hunits : 2 ^ e * unitsPerOne = 2 ^ (e + 1074) := by rw [unitsPerOne_eq, ← pow_add]
  rw [IsWhole, hunits]
  exact isSize_two_pow (by omega)

theorem log2_units_lt (h : x.isFinite = true) (hne : x.units ≠ 0) : x.units.log2 < 2098 := by
  obtain ⟨e, he, hinfinity⟩ : ∃ e, e = 2098 ∧ unitsOf infinityMagnitude = 2 ^ e :=
    ⟨2098, rfl, by decide +kernel⟩
  have hlt : x.units < unitsOf infinityMagnitude := unitsOf_lt_unitsOf le_rfl (isFinite_iff.mp h)
  have hlog : x.units.log2 < e := (Nat.log2_lt hne).mpr (hlt.trans_eq hinfinity)
  omega

/-! ### Rounding down -/

/-- A whole number that is at most a ratio is so after rounding the ratio. -/
theorem le_floorInt_ofIntRatio {k num : Int} {den : Nat} (hk : k.natAbs ≤ 2 ^ 53) (hden : 0 < den)
    (h : k * den ≤ num) : k ≤ (ofIntRatio num den).floorInt := by
  have hpos : (0 : Int) < unitsPerOne := Int.natCast_pos.mpr unitsPerOne_pos
  have hsize : IsSize (k.natAbs * unitsPerOne) := isWhole_of_le hk
  rw [floorInt, Int.le_ediv_iff_mul_le hpos, ofIntRatio]
  by_cases hnum : num < 0
  · -- Both are negative, and the ratio has the smaller size.
    have hkneg : k < 0 := by
      by_contra hk0
      have := Int.mul_nonneg (Int.not_lt.mp hk0) (Int.natCast_nonneg den)
      omega
    have hle : num.natAbs * unitsPerOne ≤ k.natAbs * unitsPerOne * den := by
      have habs : num.natAbs ≤ k.natAbs * den := by
        rw [← Int.natAbs_natCast den, ← Int.natAbs_mul]
        omega
      calc num.natAbs * unitsPerOne ≤ k.natAbs * den * unitsPerOne :=
            Nat.mul_le_mul_right _ habs
        _ = k.natAbs * unitsPerOne * den := by ring
    have hunits := (units_ofUnits_le hsize hden hle true).2
    rw [decide_eq_true hnum, signedUnits_of_negative rfl]
    have hkabs : k = -(k.natAbs : Int) := by omega
    rw [hkabs, Int.neg_mul, Int.neg_le_neg_iff]
    exact_mod_cast hunits
  · rw [decide_eq_false hnum, signedUnits_of_not_negative rfl]
    rcases lt_or_ge k 0 with hkneg | hk0
    · exact (Int.mul_nonpos_of_nonpos_of_nonneg hkneg.le hpos.le).trans (Int.natCast_nonneg _)
    · have hle : k.natAbs * unitsPerOne * den ≤ num.natAbs * unitsPerOne := by
        have habs : k.natAbs * den ≤ num.natAbs := by
          have hnonneg := Int.mul_nonneg hk0 (Int.natCast_nonneg den)
          rw [← Int.natAbs_natCast den, ← Int.natAbs_mul]
          omega
        calc k.natAbs * unitsPerOne * den = k.natAbs * den * unitsPerOne := by ring
          _ ≤ num.natAbs * unitsPerOne := Nat.mul_le_mul_right _ habs
      have hunits := le_units_ofUnits hsize hden hle false
      have hkabs : k = (k.natAbs : Int) := by omega
      rw [hkabs]
      exact_mod_cast hunits

theorem le_log2Fixed (units places : Nat) :
    ((units.log2 : Int) - places) * (twoTo logPlaces : Nat) ≤ log2Fixed units places := by
  unfold log2Fixed
  dsimp only
  omega

/-- The place of the leading digit is at most the logarithm rounded down. -/
theorem le_floorInt_log2 (hfinite : x.isFinite = true) (hsign : x.negative = false)
    (hne : x.magnitude ≠ 0) : (x.units.log2 : Int) - 1074 ≤ (log2 x).floorInt := by
  have hzero : x.isZero = false := by
    rw [Bool.eq_false_iff, Ne, isZero_iff]
    exact hne
  have hunits : x.units ≠ 0 := fun h => hne ((units_eq_zero_iff hfinite).mp h)
  have hlog : x.units.log2 < 2098 := log2_units_lt hfinite hunits
  rw [log2, logarithm, isNaN_eq_false hfinite, hzero, hsign, isInfinite_eq_false hfinite]
  simp only [Bool.false_eq_true, if_false]
  refine le_floorInt_ofIntRatio ?_ (Nat.two_pow_pos _) (le_log2Fixed x.units 1074)
  omega

/-! ### Powers of two -/

/-- A power of two is a positive number, and not below any smaller power. -/
theorem twoPow_spec {e : Nat} {n : Int} (he : e ≤ 2097) (hn : (e : Int) - 1074 ≤ n) :
    (twoPow n).isNaN = false ∧ (twoPow n).magnitude ≠ 0 ∧ 2 ^ e ≤ (twoPow n).units := by
  have hlow : ¬ n < -1074 := by omega
  rw [twoPow, if_neg hlow]
  have hpow : 2 ^ e * 1 ≤ twoTo (n + 1074).toNat := by
    rw [Nat.mul_one]
    exact Nat.pow_le_pow_right (by decide) (by omega)
  have hunits := le_units_ofUnits (isSize_two_pow he) one_pos hpow false
  refine ⟨isNaN_ofUnits _ _ _, fun hzero => ?_, hunits⟩
  have hpos : 0 < 2 ^ e := Nat.two_pow_pos e
  rw [units, hzero] at hunits
  exact absurd (hpos.trans_le hunits) (by decide)

/-- Two to the power of its logarithm, rounded down, is more than half of a number. -/
theorem units_lt_twoPow_floorInt_log2 (hfinite : x.isFinite = true) (hsign : x.negative = false)
    (hne : x.magnitude ≠ 0) :
    (twoPow (log2 x).floorInt).isNaN = false ∧ (twoPow (log2 x).floorInt).magnitude ≠ 0 ∧
      x.units < 2 * (twoPow (log2 x).floorInt).units := by
  have hunits : x.units ≠ 0 := fun h => hne ((units_eq_zero_iff hfinite).mp h)
  have hlog : x.units.log2 < 2098 := log2_units_lt hfinite hunits
  obtain ⟨hnan, hmagnitude, hle⟩ :=
    twoPow_spec (by omega) (le_floorInt_log2 hfinite hsign hne)
  refine ⟨hnan, hmagnitude, ?_⟩
  calc x.units < 2 ^ (x.units.log2 + 1) := Nat.lt_log2_self
    _ = 2 * 2 ^ x.units.log2 := by rw [pow_succ, Nat.mul_comm]
    _ ≤ 2 * (twoPow (log2 x).floorInt).units := Nat.mul_le_mul_left 2 hle

end DramTiming.Binary64
