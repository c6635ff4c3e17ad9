import DramTiming.Proofs.Binary64.Doubling

/-!
# Multiplication by powers of two

`IsTimesTwoPow k x y` says that `y` is exactly `x` times two to the power of `k`.  Such numbers are
numerically equal to others in the same way.  As long as the product stays within the range of
numbers with all their places, multiplication makes such a number (`isTimesTwoPow_timesTwoPow`).
-/

namespace DramTiming.Binary64

variable {k : Int} {x x' y y' : Binary64}

/-- `y` is exactly `x` times two to the power of `k`. -/
structure IsTimesTwoPow (k : Int) (x y : Binary64) : Prop where
  isFinite : x.isFinite = true
  isFinite_right : y.isFinite = true
  negative_eq : y.negative = x.negative
  units_eq : y.units * 2 ^ (-k).toNat = x.units * 2 ^ k.toNat

theorem IsTimesTwoPow.symm (h : IsTimesTwoPow k x y) : IsTimesTwoPow (-k) y x where
  isFinite := h.isFinite_right
  isFinite_right := h.isFinite
  negative_eq := h.negative_eq.symm
  units_eq := by rw [neg_neg, h.units_eq]

theorem isTimesTwoPow_zero (h : x.isFinite = true) : IsTimesTwoPow 0 x x := ⟨h, h, rfl, rfl⟩

/-! ### Numerical equality -/

theorem signedUnits_eq_iff (hx : x.isFinite = true) (hy : y.isFinite = true) :
    x.signedUnits = y.signedUnits ↔ x.numericKey = y.numericKey := by
  rw [le_antisymm_iff, le_antisymm_iff, signedUnits_le_signedUnits_iff hx hy,
    signedUnits_le_signedUnits_iff hy hx]

theorem IsTimesTwoPow.signedUnits_eq (h : IsTimesTwoPow k x y) :
    y.signedUnits * 2 ^ (-k).toNat = x.signedUnits * 2 ^ k.toNat := by
  have hunits : (y.units : Int) * 2 ^ (-k).toNat = x.units * 2 ^ k.toNat := by
    exact_mod_cast h.units_eq
  unfold signedUnits
  rw [h.negative_eq]
  split
  · rw [Int.neg_mul, Int.neg_mul, hunits]
  · exact hunits

theorem IsTimesTwoPow.eq_eq (hx : IsTimesTwoPow k x x') (hy : IsTimesTwoPow k y y') :
    Binary64.eq x' y' = Binary64.eq x y := by
  have hiff : x'.numericKey = y'.numericKey ↔ x.numericKey = y.numericKey := by
    rw [← signedUnits_eq_iff hx.isFinite_right hy.isFinite_right,
      ← signedUnits_eq_iff hx.isFinite hy.isFinite]
    have hpow : (2 : Int) ^ k.toNat ≠ 0 := by positivity
    have hpow' : (2 : Int) ^ (-k).toNat ≠ 0 := by positivity
    rw [← mul_left_inj' hpow', hx.signedUnits_eq, hy.signedUnits_eq, mul_left_inj' hpow]
  rw [Bool.eq_iff_iff, eq_iff, eq_iff, isNaN_eq_false hx.isFinite, isNaN_eq_false hy.isFinite,
    isNaN_eq_false hx.isFinite_right, isNaN_eq_false hy.isFinite_right, hiff]

/-! ### Rounded products -/

/-- A finite number times two to the power of `k`, rounded. -/
def timesTwoPow (k : Int) (x : Binary64) : Binary64 :=
  ofUnits x.negative (x.units * 2 ^ k.toNat) (2 ^ (-k).toNat)

/-- `x` is finite; times two to the power of `k`, it is zero or of a size from `2 ^ -800` to
`2 ^ 1000`. -/
structure InRange (k : Int) (x : Binary64) : Prop where
  isFinite : x.isFinite = true
  units_between : x.units ≠ 0 → 2 ^ 274 * 2 ^ (-k).toNat ≤ x.units * 2 ^ k.toNat ∧
    x.units * 2 ^ k.toNat ≤ 2 ^ 2074 * 2 ^ (-k).toNat

theorem not_overflowsPower_of_units_le (hfinite : x.isFinite = true) (h : x.units ≤ 2 ^ 2074) :
    ¬ x.OverflowsPower := by
  intro hover
  have hlarge : 2 ^ 2074 < unitsOf overflowMagnitude := by decide +kernel
  have hle : unitsOf overflowMagnitude ≤ x.units :=
    (unitsOf_le_unitsOf_iff (by decide) (isFinite_iff.mp hfinite).le).mpr hover
  omega

theorem InRange.not_overflows (h : InRange k x) (hrel : IsTimesTwoPow k x y) :
    ¬ y.OverflowsPower := by
  refine not_overflowsPower_of_units_le hrel.isFinite_right ?_
  have hpow : 0 < 2 ^ (-k).toNat := Nat.two_pow_pos _
  refine Nat.le_of_mul_le_mul_right ?_ hpow
  rw [hrel.units_eq]
  rcases eq_or_ne x.units 0 with hzero | hne
  · rw [hzero, Nat.zero_mul]
    exact Nat.zero_le _
  · exact (h.units_between hne).2

theorem exists_steps_of_units_le (h : 2 ^ 53 ≤ x.units) :
    ∃ steps shift, x.units = steps * 2 ^ shift ∧ 2 ^ 52 ≤ steps ∧ steps < 2 ^ 53 := by
  obtain ⟨steps, shift, hunits, hlt, hge⟩ := exists_units_eq x
  refine ⟨steps, shift, hunits, hge.resolve_left fun hzero => ?_, hlt⟩
  rw [hunits, hzero, pow_zero] at h
  omega

theorem exists_exponent {steps i i' : Nat} (hge : 2 ^ 52 ≤ steps) (hlt : steps < 2 ^ 53)
    (hlo : 2 ^ 274 * 2 ^ i' ≤ steps * 2 ^ i) (hhi : steps * 2 ^ i ≤ 2 ^ 2074 * 2 ^ i') :
    ∃ e ≤ 2044, i = e + i' := by
  have hlow : 274 + i' < 53 + i := by
    refine (Nat.pow_lt_pow_iff_right (by decide : 1 < 2)).mp ?_
    calc 2 ^ (274 + i') = 2 ^ 274 * 2 ^ i' := pow_add _ _ _
      _ ≤ steps * 2 ^ i := hlo
      _ < 2 ^ 53 * 2 ^ i := Nat.mul_lt_mul_of_pos_right hlt (Nat.two_pow_pos i)
      _ = 2 ^ (53 + i) := (pow_add _ _ _).symm
  have hhigh : 52 + i ≤ 2074 + i' := by
    refine (Nat.pow_le_pow_iff_right (by decide : 1 < 2)).mp ?_
    calc 2 ^ (52 + i) = 2 ^ 52 * 2 ^ i := pow_add _ _ _
      _ ≤ steps * 2 ^ i := Nat.mul_le_mul_right _ hge
      _ ≤ 2 ^ 2074 * 2 ^ i' := hhi
      _ = 2 ^ (2074 + i') := (pow_add _ _ _).symm
  clear hlo hhi
  exact ⟨i - i', by omega, by omega⟩

/-- Numbers in range have all their places, and lose none of them by a power of two. -/
theorem isTimesTwoPow_timesTwoPow (h : InRange 0 x) (h' : InRange k x) :
    IsTimesTwoPow k x (timesTwoPow k x) := by
  suffices hexact : ∃ n, IsSize n ∧ x.units * 2 ^ k.toNat = n * 2 ^ (-k).toNat by
    obtain ⟨n, hn, hproduct⟩ := hexact
    have hpow : 0 < 2 ^ (-k).toNat := Nat.two_pow_pos _
    rw [timesTwoPow, hproduct]
    refine ⟨h.isFinite, (units_ofUnits_le hn hpow le_rfl _).1, negative_ofUnits _ _ _, ?_⟩
    rw [units_ofUnits_mul hn hpow, hproduct]
  rcases eq_or_ne x.units 0 with hzero | hne
  · have hsize : IsSize 0 := ⟨0, by decide, rfl⟩
    refine ⟨0, hsize, ?_⟩
    rw [hzero, Nat.zero_mul, Nat.zero_mul]
  · have hplain {e : Nat} (hle : 2 ^ e * 2 ^ (-(0 : Int)).toNat ≤ x.units * 2 ^ (0 : Int).toNat) :
        2 ^ e ≤ x.units := by simpa using hle
    have hlarge : 2 ^ 274 ≤ x.units := hplain (h.units_between hne).1
    obtain ⟨steps, shift, hunits, hge, hlt⟩ :=
      exists_steps_of_units_le ((pow_le_pow_right₀ one_le_two (by decide)).trans hlarge)
    have hproduct : x.units * 2 ^ k.toNat = steps * 2 ^ (shift + k.toNat) := by
      rw [hunits, pow_add, Nat.mul_assoc]
    obtain ⟨hlo, hhi⟩ := h'.units_between hne
    rw [hproduct] at hlo hhi ⊢
    obtain ⟨e, he, hexponent⟩ := exists_exponent hge hlt hlo hhi
    exact ⟨steps * 2 ^ e, isSize_mul_two_pow hlt.le he, by rw [hexponent, pow_add, Nat.mul_assoc]⟩

end DramTiming.Binary64
