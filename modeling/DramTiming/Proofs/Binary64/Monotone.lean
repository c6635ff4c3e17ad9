import DramTiming.Proofs.Binary64.Doubling
import DramTiming.Proofs.Binary64.Magnitude
import DramTiming.Proofs.Binary64.Reflection

/-!
# Operations that keep the order

Rounding is monotone.  So a sum grows with its second operand (`add_le_add_left`), a quotient with
its dividend (`div_le_div_right`) and a logarithm with its argument (`log10_le_log10`), and no
rounding takes a sum or a product to the other side of its first operand (`add_le_self`,
`le_add_self`, `le_mul_self`).  Infinite operands are no exception.
-/

namespace DramTiming.Binary64

variable {x y z : Binary64} {m n : Int}

/-! ### The numeric order -/

protected theorem le_trans (hxy : le x y = true) (hyz : le y z = true) : le x z = true := by
  obtain ⟨hx, -, hkey⟩ := le_iff.mp hxy
  obtain ⟨-, hz, hkey'⟩ := le_iff.mp hyz
  exact le_iff.mpr ⟨hx, hz, hkey.trans hkey'⟩

protected theorem le_of_lt (h : lt x y = true) : le x y = true := by
  obtain ⟨hx, hy, hkey⟩ := lt_iff.mp h
  exact le_iff.mpr ⟨hx, hy, hkey.le⟩

protected theorem lt_of_lt_of_le (hxy : lt x y = true) (hyz : le y z = true) : lt x z = true := by
  obtain ⟨hx, -, hkey⟩ := lt_iff.mp hxy
  obtain ⟨-, hz, hkey'⟩ := le_iff.mp hyz
  exact lt_iff.mpr ⟨hx, hz, hkey.trans_le hkey'⟩

protected theorem lt_of_le_of_lt (hxy : le x y = true) (hyz : lt y z = true) : lt x z = true := by
  obtain ⟨hx, -, hkey⟩ := le_iff.mp hxy
  obtain ⟨-, hz, hkey'⟩ := lt_iff.mp hyz
  exact lt_iff.mpr ⟨hx, hz, hkey.trans_lt hkey'⟩

theorem numericKey_neg (hx : x.isNaN = false) : (-x).numericKey = -x.numericKey :=
  (mirrored_neg x).numericKey_eq hx

theorem neg_le_neg_of_le (h : le x y = true) : le (-y) (-x) = true := by
  obtain ⟨hx, hy, hkey⟩ := le_iff.mp h
  refine le_iff.mpr ⟨hy, hx, ?_⟩
  rw [numericKey_neg hx, numericKey_neg hy]
  exact neg_le_neg hkey

theorem le_infinity (hx : x.isNaN = false) : le x (infinity false) = true := by
  have hmagnitude := magnitude_le_infinityMagnitude hx
  have hkey : (infinity false).numericKey = infinityMagnitude := rfl
  have habs := natAbs_numericKey x
  refine le_iff.mpr ⟨hx, isNaN_infinity false, ?_⟩
  rw [hkey]
  omega

theorem neg_infinity_le (hx : x.isNaN = false) : le (infinity true) x = true := by
  have h : le (-(infinity false)) (- -x) = true := neg_le_neg_of_le (le_infinity (x := -x) hx)
  rwa [neg_neg_self] at h

/-- What is at most a finite number is finite, among numbers without a minus sign. -/
theorem isFinite_of_le (hxsign : x.negative = false) (hysign : y.negative = false)
    (hy : y.isFinite = true) (h : le x y = true) : x.isFinite = true ∧ x.units ≤ y.units := by
  obtain ⟨hx, hynan, -⟩ := le_iff.mp h
  have hmagnitude := (le_iff_magnitude_le hx hynan hxsign hysign).mp h
  have hfinite : x.isFinite = true := isFinite_iff.mpr (hmagnitude.trans_lt (isFinite_iff.mp hy))
  exact ⟨hfinite, (units_le_units_iff hfinite hy).mpr hmagnitude⟩

theorem eq_of_negative_of_magnitude (hsign : x.negative = y.negative)
    (hmagnitude : x.magnitude = y.magnitude) : x = y := by
  cases x
  cases y
  simp_all

/-! ### Whole numbers of units -/

/-- The key of the number nearest to `n` units. -/
def roundKey (n : Int) : Int :=
  if n < 0 then -(roundMagnitude n.natAbs 1 : Int) else roundMagnitude n.natAbs 1

theorem roundKey_le_roundKey (h : m ≤ n) : roundKey m ≤ roundKey n := by
  have hmono {k l : Nat} (hkl : k ≤ l) : roundMagnitude k 1 ≤ roundMagnitude l 1 :=
    roundMagnitude_le_roundMagnitude one_pos one_pos (Nat.mul_le_mul_right 1 hkl)
  unfold roundKey
  rcases lt_or_ge m 0 with hm | hm
  · rcases lt_or_ge n 0 with hn | hn
    · have := hmono (show n.natAbs ≤ m.natAbs by omega)
      rw [if_pos hm, if_pos hn]
      omega
    · rw [if_pos hm, if_neg hn.not_gt]
      omega
  · have := hmono (show m.natAbs ≤ n.natAbs by omega)
    rw [if_neg hm.not_gt, if_neg (by omega)]
    omega

theorem numericKey_ofSignedUnits (zeroSign : Bool) (n : Int) :
    (ofSignedUnits zeroSign n).numericKey = roundKey n := by
  rw [ofSignedUnits, roundKey]
  by_cases hzero : n = 0
  · rw [if_pos hzero, if_neg (by omega), hzero, Int.natAbs_zero, roundMagnitude_zero one_pos]
    cases zeroSign <;> rfl
  · rw [if_neg hzero]
    simp only [numericKey, ofUnits, decide_eq_true_eq]

theorem isNaN_ofSignedUnits (zeroSign : Bool) (n : Int) :
    (ofSignedUnits zeroSign n).isNaN = false := by
  rw [ofSignedUnits]
  split
  · exact isNaN_eq_false (within_zero 0 zeroSign).isFinite
  · exact isNaN_ofUnits _ _ _

/-- A finite number is the one nearest to its own units. -/
theorem roundKey_signedUnits (hx : x.isFinite = true) : roundKey x.signedUnits = x.numericKey := by
  have hround := roundMagnitude_unitsOf one_pos x.magnitude
  rw [Nat.mul_one, Nat.min_eq_right (isFinite_iff.mp hx).le] at hround
  have hunits : unitsOf x.magnitude = x.units := rfl
  have hzero := units_eq_zero_iff hx
  rw [roundKey, natAbs_signedUnits, ← hunits, hround]
  unfold signedUnits numericKey
  cases x.negative
  · simp
  · simp only [if_true]
    split <;> omega

/-! ### Sums -/

theorem numericKey_add (hx : x.isFinite = true) (hy : y.isFinite = true) :
    (x + y).numericKey = roundKey (x.signedUnits + y.signedUnits) := by
  rw [add_of_isFinite hx hy, numericKey_ofSignedUnits]

theorem isNaN_add_of_isFinite (hz : z.isFinite = true) (hx : x.isNaN = false) :
    (z + x).isNaN = false := by
  obtain ⟨negative, rfl⟩ | hfinite := infinity_or_isFinite hx
  · rw [add_infinity_of_isFinite hz, isNaN_infinity]
  · rw [add_of_isFinite hz hfinite]
    exact isNaN_ofSignedUnits _ _

/-- Nothing but infinity is at least infinity. -/
theorem eq_infinity_of_le (h : le (infinity false) x = true) : x = infinity false := by
  obtain ⟨-, hnan, hkey⟩ := le_iff.mp h
  have hmagnitude := magnitude_le_infinityMagnitude hnan
  have hkey' : (infinity false).numericKey = infinityMagnitude := rfl
  have hpos : 0 < infinityMagnitude := by decide
  rw [hkey'] at hkey
  unfold numericKey at hkey
  cases hsign : x.negative
  · rw [hsign] at hkey
    simp only [Bool.false_eq_true, if_false] at hkey
    apply eq_of_negative_of_magnitude hsign
    show x.magnitude = infinityMagnitude
    omega
  · rw [hsign] at hkey
    simp only [if_true] at hkey
    omega

/-- A sum grows with its second operand. -/
theorem add_le_add_left (hz : z.isFinite = true) (h : le x y = true) :
    le (z + x) (z + y) = true := by
  obtain ⟨hx, hy, -⟩ := le_iff.mp h
  have hxsum := isNaN_add_of_isFinite hz hx
  have hysum := isNaN_add_of_isFinite hz hy
  obtain ⟨_ | _, rfl⟩ | hxfinite := infinity_or_isFinite hx
  · rw [eq_infinity_of_le h]
    exact le_refl (by rwa [← eq_infinity_of_le h])
  · rw [add_infinity_of_isFinite hz]
    exact neg_infinity_le hysum
  · obtain ⟨_ | _, rfl⟩ | hyfinite := infinity_or_isFinite hy
    · rw [add_infinity_of_isFinite hz]
      exact le_infinity hxsum
    · -- Nothing finite is at most minus infinity.
      have hneg : le (infinity false) (-x) = true := neg_le_neg_of_le h
      have hinf := isInfinite_infinity false
      rw [← eq_infinity_of_le hneg] at hinf
      exact absurd hxfinite (not_isFinite_of_isInfinite hinf)
    · refine le_iff.mpr ⟨hxsum, hysum, ?_⟩
      rw [numericKey_add hz hxfinite, numericKey_add hz hyfinite]
      apply roundKey_le_roundKey
      have hunits := (signedUnits_le_signedUnits_iff hxfinite hyfinite).mpr (le_iff.mp h).2.2
      exact Int.add_le_add_left hunits _

theorem numericKey_add_zero (hz : z.isFinite = true) : (z + 0).numericKey = z.numericKey := by
  have hzero : (0 : Binary64).isFinite = true := by
    rw [zero_eq]
    rfl
  have hunits : (0 : Binary64).signedUnits = 0 := by
    rw [zero_eq]
    rfl
  rw [numericKey_add hz hzero, hunits, Int.add_zero, roundKey_signedUnits hz]

/-- A number to which nothing positive is added does not grow. -/
theorem add_le_self (hz : z.isFinite = true) (h : le x 0 = true) : le (z + x) z = true := by
  have hsum := add_le_add_left hz h
  have hnan := isNaN_eq_false hz
  refine Binary64.le_trans hsum (le_iff.mpr ⟨(le_iff.mp hsum).2.1, hnan, ?_⟩)
  exact (numericKey_add_zero hz).le

/-- A number to which nothing negative is added does not shrink. -/
theorem le_add_self (hz : z.isFinite = true) (h : le 0 x = true) : le z (z + x) = true := by
  have hsum := add_le_add_left hz h
  have hnan := isNaN_eq_false hz
  refine Binary64.le_trans (le_iff.mpr ⟨hnan, (le_iff.mp hsum).1, ?_⟩) hsum
  exact (numericKey_add_zero hz).ge

/-- A larger number less a smaller one has no minus sign. -/
theorem sub_not_negative (hx : x.isFinite = true) (hy : y.isFinite = true) (h : lt y x = true) :
    (x - y).isNaN = false ∧ (x - y).negative = false := by
  have hneg : (-y).isFinite = true := hy
  have hunits : y.signedUnits < x.signedUnits := by
    by_contra hge
    have hkeys := roundKey_le_roundKey (not_lt.mp hge)
    rw [roundKey_signedUnits hx, roundKey_signedUnits hy] at hkeys
    exact absurd (lt_iff.mp h).2.2 hkeys.not_gt
  show (x + -y).isNaN = false ∧ (x + -y).negative = false
  rw [add_of_isFinite hx hneg, signedUnits_neg, ofSignedUnits, if_neg (by omega),
    decide_eq_false (by omega)]
  exact ⟨isNaN_ofUnits _ _ _, rfl⟩

/-! ### Products -/

/-- A number without a minus sign multiplied by a positive number. -/
theorem mul_not_negative (hx : x.isNaN = false) (hxsign : x.negative = false)
    (hy : y.isFinite = true) (hysign : y.negative = false) (hne : y.magnitude ≠ 0) :
    (x * y).isNaN = false ∧ (x * y).negative = false := by
  obtain ⟨negative, rfl⟩ | hfinite := infinity_or_isFinite hx
  · have hzero : y.isZero = false := Bool.eq_false_iff.mpr (hne ∘ isZero_iff.mp)
    obtain rfl : negative = false := hxsign
    rw [infinity_mul _ (isNaN_eq_false hy), hzero, hysign]
    exact ⟨isNaN_infinity _, rfl⟩
  · rw [mul_of_isFinite hfinite hy, hxsign, hysign]
    exact ⟨isNaN_ofUnits _ _ _, rfl⟩

/-- A number that is not negative does not shrink when multiplied by one or more. -/
theorem le_mul_self (hx : x.isFinite = true) (hxsign : x.negative = false)
    (hy : y.isFinite = true) (hysign : y.negative = false) (hone : unitsPerOne ≤ y.units) :
    le x (x * y) = true := by
  rw [mul_of_isFinite hx hy, hxsign, hysign, bne_self_eq_false,
    le_iff_magnitude_le (isNaN_eq_false hx) (isNaN_ofUnits _ _ _) hxsign rfl]
  refine le_roundMagnitude_of_le unitsPerOne_pos (isFinite_iff.mp hx).le ?_
  exact Nat.mul_le_mul_left x.units hone

/-! ### Quotients -/

/-- A quotient changes its sign with its dividend. -/
theorem neg_div_of_isFinite (hx : x.isNaN = false) (hz : z.isFinite = true)
    (hne : z.magnitude ≠ 0) : -x / z = -(x / z) := by
  obtain ⟨negative, rfl⟩ | hfinite := infinity_or_isFinite hx
  · have hneg : -infinity negative = infinity !negative := rfl
    rw [hneg, infinity_div_of_isFinite _ hz, infinity_div_of_isFinite _ hz, Bool.not_bne]
    rfl
  · have hsign : (-x).negative = !x.negative := rfl
    have hunits : (-x).units = x.units := rfl
    rw [div_of_isFinite (x := -x) hfinite hz hne, div_of_isFinite hfinite hz hne, hsign, hunits,
      Bool.not_bne]
    rfl

/-- A quotient by a positive number grows with its dividend. -/
theorem div_le_div_right (hz : z.isFinite = true) (hzsign : z.negative = false)
    (hne : z.magnitude ≠ 0) (hxsign : x.negative = false) (hysign : y.negative = false)
    (h : le x y = true) : le (x / z) (y / z) = true := by
  obtain ⟨hx, hy, -⟩ := le_iff.mp h
  have hpos : 0 < z.units := Nat.pos_of_ne_zero (units_ne_zero hz hne)
  have hfinite {a : Binary64} (ha : a.isFinite = true) (hasign : a.negative = false) :
      a / z = ofUnits false (a.units * unitsPerOne) z.units := by
    rw [div_of_isFinite ha hz hne, hasign, hzsign, bne_self_eq_false]
  have hinfinite : infinity false / z = infinity false := by
    rw [infinity_div_of_isFinite _ hz, hzsign, bne_self_eq_false]
  by_cases hyinf : y.isInfinite = true
  · rw [eq_infinity hyinf, hysign, hinfinite]
    apply le_infinity
    by_cases hxinf : x.isInfinite = true
    · rw [eq_infinity hxinf, hxsign, hinfinite, isNaN_infinity]
    · exact isNaN_div_eq_false (isFinite_of_not_isNaN_of_not_isInfinite hx hxinf)
        (isNaN_eq_false hz) hne
  · have hyfinite := isFinite_of_not_isNaN_of_not_isInfinite hy hyinf
    obtain ⟨hxfinite, hunits⟩ := isFinite_of_le hxsign hysign hyfinite h
    rw [hfinite hxfinite hxsign, hfinite hyfinite hysign,
      le_iff_magnitude_le (isNaN_ofUnits _ _ _) (isNaN_ofUnits _ _ _) rfl rfl]
    apply roundMagnitude_le_roundMagnitude hpos hpos
    gcongr

/-- A number divided by itself. -/
theorem div_self_of_isFinite (hx : x.isFinite = true) (hne : x.magnitude ≠ 0) : x / x = 1 := by
  have hpos : 0 < x.units := Nat.pos_of_ne_zero (units_ne_zero hx hne)
  have hone : (1 : Binary64) = ofNat 1 := rfl
  rw [div_of_isFinite hx hx hne, bne_self_eq_false, hone, ofNat]
  apply ofUnits_congr hpos one_pos
  ring

/-! ### Signs -/

/-- A number multiplied by the sign of another one. -/
theorem signum_mul (hx : x.isNaN = false) (hy : y.isNaN = false) :
    signum x * y = if x.negative then -y else y := by
  obtain ⟨-, hone, hunits⟩ := one_spec
  have hsignum : signum x = { (1 : Binary64) with negative := x.negative } := by
    rw [signum, hx, if_neg Bool.false_ne_true]
  have hfinite : (signum x).isFinite = true := by
    rw [hsignum]
    exact hone
  have hsign : (signum x).negative = x.negative := by rw [hsignum]
  have hsize : (signum x).units = unitsPerOne := by
    rw [hsignum]
    exact hunits
  have hproduct : signum x * y = ⟨x.negative != y.negative, y.magnitude, y.magnitude_lt⟩ := by
    by_cases hinf : y.isInfinite = true
    · have hzero : (signum x).isZero = false := by
        rw [Bool.eq_false_iff, Ne, isZero_iff, hsignum]
        exact magnitude_one_ne_zero
      rw [mul_of_isInfinite hfinite hinf, hzero, if_neg Bool.false_ne_true, hsign]
      exact eq_of_negative_of_magnitude rfl (isInfinite_iff.mp hinf).symm
    · have hyfinite := isFinite_of_not_isNaN_of_not_isInfinite hy hinf
      have hround := roundMagnitude_unitsOf unitsPerOne_pos y.magnitude
      rw [Nat.min_eq_right (isFinite_iff.mp hyfinite).le] at hround
      rw [mul_of_isFinite hfinite hyfinite, hsign, hsize, Nat.mul_comm]
      exact eq_of_negative_of_magnitude rfl hround
  rw [hproduct]
  cases hxsign : x.negative
  · simp
  · apply eq_of_negative_of_magnitude
    · show (true != y.negative) = !y.negative
      simp
    · rfl

/-- An odd function that keeps the order of numbers without a minus sign keeps the order of all
numbers.  Both zeros have to be taken to zero, as they are equal. -/
theorem le_of_odd {f : Binary64 → Binary64} (hodd : ∀ x, x.isNaN = false → f (-x) = -f x)
    (hzero : ∀ x, x.magnitude = 0 → (f x).numericKey = 0)
    (hmono : ∀ x y, x.negative = false → y.negative = false → le x y = true →
      le (f x) (f y) = true) (h : le x y = true) : le (f x) (f y) = true := by
  obtain ⟨hx, hy, hkey⟩ := le_iff.mp h
  have hreflect {a : Binary64} (ha : a.isNaN = false) : f a = -f (-a) := by
    rw [hodd a ha, neg_neg_self]
  have hsign {a : Binary64} (ha : a.negative = true) : (-a).negative = false := by
    show (!a.negative) = false
    rw [ha]
    rfl
  have hnonneg {a : Binary64} (ha : a.isNaN = false) (hasign : a.negative = false) :
      le 0 (f a) = true := by
    have hfrom := hmono 0 a (by rw [zero_eq]; rfl) hasign (zero_le_of_not_negative ha hasign)
    obtain ⟨-, hnan, hle⟩ := le_iff.mp hfrom
    rw [hzero 0 (by rw [zero_eq]; rfl)] at hle
    refine le_iff.mpr ⟨isNaN_zero, hnan, ?_⟩
    rwa [numericKey_zero]
  cases hxsign : x.negative
  · cases hysign : y.negative
    · exact hmono x y hxsign hysign h
    · -- Only zeros are in this order.
      have hzeros : x.magnitude = 0 ∧ y.magnitude = 0 := by
        unfold numericKey at hkey
        rw [hxsign, hysign] at hkey
        simp only [if_true, Bool.false_eq_true, if_false] at hkey
        omega
      have hynan : (f y).isNaN = false := by
        rw [hreflect hy]
        exact (le_iff.mp (hnonneg (a := -y) hy (hsign hysign))).2.1
      refine le_iff.mpr ⟨(le_iff.mp (hnonneg hx hxsign)).2.1, hynan, ?_⟩
      rw [hzero x hzeros.1, hzero y hzeros.2]
  · cases hysign : y.negative
    · have hle : le (f x) (-0) = true := by
        rw [hreflect hx]
        exact neg_le_neg_of_le (hnonneg (a := -x) hx (hsign hxsign))
      have hzeros : le (-0) 0 = true := by decide +kernel
      exact Binary64.le_trans (Binary64.le_trans hle hzeros) (hnonneg hy hysign)
    · rw [hreflect hx, hreflect hy]
      apply neg_le_neg_of_le
      exact hmono (-y) (-x) (hsign hysign) (hsign hxsign) (neg_le_neg_of_le h)

/-! ### Logarithms -/

theorem log2Fixed_mono {units units' : Nat} (places : Nat) (h : units ≤ units') :
    log2Fixed units places ≤ log2Fixed units' places := by
  have hlog : units.log2 ≤ units'.log2 := by
    rw [Nat.log2_eq_log_two, Nat.log2_eq_log_two]
    exact Nat.log_mono_right h
  rcases hlog.lt_or_eq with hlt | heq
  · -- The leading digits differ, and so do the whole parts.
    have hbelow := log2Fixed_lt units places
    have habove := le_log2Fixed units' places
    have hstep : ((units.log2 : Int) - places + 1) * (twoTo logPlaces : Nat) ≤
        ((units'.log2 : Int) - places) * (twoTo logPlaces : Nat) :=
      Int.mul_le_mul_of_nonneg_right (by omega) (Int.natCast_nonneg _)
    omega
  · exact log2Fixed_le_log2Fixed places h heq

theorem log10_of_pos (hfinite : x.isFinite = true) (hsign : x.negative = false)
    (hne : x.magnitude ≠ 0) : log10 x = ofIntRatio (log2Fixed x.units 1074) log2TenFixed := by
  have hzero : x.isZero = false := Bool.eq_false_iff.mpr (hne ∘ isZero_iff.mp)
  rw [log10, logarithm, isNaN_eq_false hfinite, hzero, hsign, isInfinite_eq_false hfinite]
  simp only [Bool.false_eq_true, if_false]

theorem log2TenFixed_pos : 0 < log2TenFixed := by decide +kernel

theorem log10_one : log10 1 = 0 := by decide +kernel

/-- What is at least one has a logarithm that is not negative, in fixed point. -/
theorem log2Fixed_nonneg (hx : x.isFinite = true) (hone : le 1 x = true) :
    0 ≤ log2Fixed x.units 1074 := by
  obtain ⟨-, hsign, -⟩ := one_le_iff.mp hone
  obtain ⟨hunit, -, hunits⟩ := one_spec
  have hle := (isFinite_of_le hunit hsign hx hone).2
  obtain ⟨e, he, hpow⟩ : ∃ e, e = 1074 ∧ unitsPerOne = 2 ^ e := ⟨1074, rfl, unitsPerOne_eq⟩
  rw [hunits] at hle
  have hplace : e ≤ x.units.log2 :=
    (Nat.le_log2 (unitsPerOne_pos.trans_le hle).ne').mpr (hpow.symm.trans_le hle)
  refine le_trans (Int.mul_nonneg ?_ (Int.natCast_nonneg _)) (le_log2Fixed x.units 1074)
  omega

/-- A decimal logarithm grows with its argument, from one on. -/
theorem log10_le_log10 (hone : le 1 x = true) (h : le x y = true) :
    le (log10 x) (log10 y) = true := by
  obtain ⟨hx, hxsign, hxle⟩ := one_le_iff.mp hone
  obtain ⟨hy, hysign, hyle⟩ := one_le_iff.mp (Binary64.le_trans hone h)
  have hne := magnitude_one_ne_zero
  have hfinite {a : Binary64} (ha : a.isFinite = true) (hasign : a.negative = false)
      (hale : (1 : Binary64).magnitude ≤ a.magnitude) :
      log10 a = ofIntRatio (log2Fixed a.units 1074) log2TenFixed :=
    log10_of_pos ha hasign (by omega)
  have hinfinite : log10 (infinity false) = infinity false := rfl
  by_cases hyinf : y.isInfinite = true
  · rw [eq_infinity hyinf, hysign, hinfinite]
    apply le_infinity
    by_cases hxinf : x.isInfinite = true
    · rw [eq_infinity hxinf, hxsign, hinfinite, isNaN_infinity]
    · rw [hfinite (isFinite_of_not_isNaN_of_not_isInfinite hx hxinf) hxsign hxle]
      exact isNaN_ofUnits _ _ _
  · have hyfinite := isFinite_of_not_isNaN_of_not_isInfinite hy hyinf
    obtain ⟨hxfinite, hunits⟩ := isFinite_of_le hxsign hysign hyfinite h
    have hlog := log2Fixed_mono 1074 hunits
    have hnonneg := log2Fixed_nonneg hxfinite hone
    rw [hfinite hxfinite hxsign hxle, hfinite hyfinite hysign hyle, ofIntRatio, ofIntRatio,
      decide_eq_false (by omega), decide_eq_false (by omega),
      le_iff_magnitude_le (isNaN_ofUnits _ _ _) (isNaN_ofUnits _ _ _) rfl rfl]
    apply roundMagnitude_le_roundMagnitude log2TenFixed_pos log2TenFixed_pos
    have habs : (log2Fixed x.units 1074).natAbs ≤ (log2Fixed y.units 1074).natAbs := by omega
    gcongr

end DramTiming.Binary64
