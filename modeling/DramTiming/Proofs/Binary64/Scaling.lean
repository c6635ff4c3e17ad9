import DramTiming.Proofs.Binary64.Logarithm
import DramTiming.Proofs.Binary64.Order

/-!
# Differences that survive rounding

Two numbers that differ still do after both are divided by a power of two near the larger one: its
quotient is exact, and so is that of the number next to it (`add_le_units_div`).  Beside the upper
bounds of sums, products and quotients stand lower ones here, and an upper bound of sums that no
number of summands breaks (`Within.add_absorbed`).
-/

namespace DramTiming.Binary64

variable {x y a b s : Binary64} {g n : Nat}

/-! ### Neighbours -/

/-- A magnitude and the one before it are made of few steps of the same width. -/
theorem exists_unitsOf_pred {m : Nat} (h : m ≠ 0) :
    ∃ steps before shift, unitsOf m = steps * 2 ^ shift ∧ unitsOf (m - 1) = before * 2 ^ shift ∧
      before < steps ∧ steps ≤ 2 ^ 53 := by
  obtain ⟨steps, shift, rfl, hlt, hge⟩ := exists_steps m
  by_cases hfirst : shift ≠ 0 ∧ steps = 2 ^ 52
  · -- The first magnitude of a block: the one before has steps half as wide.
    obtain ⟨hshift, rfl⟩ := hfirst
    obtain ⟨d, rfl⟩ := Nat.exists_eq_succ_of_ne_zero hshift
    refine ⟨2 ^ 53, 2 ^ 53 - 1, d, ?_, ?_, by decide, le_rfl⟩
    · rw [unitsOf_steps hlt hge, ← pow_add, ← pow_add]
      congr 1
      omega
    · rw [show (d + 1) * 2 ^ 52 + 2 ^ 52 - 1 = d * 2 ^ 52 + (2 ^ 53 - 1) by omega]
      exact unitsOf_steps (by decide) (.inr (by decide))
  · refine ⟨steps, steps - 1, shift, unitsOf_steps hlt hge, ?_, by omega, hlt.le⟩
    rw [show shift * 2 ^ 52 + steps - 1 = shift * 2 ^ 52 + (steps - 1) by omega]
    exact unitsOf_steps (by omega) (by omega)

/-! ### Exact quotients -/

/-- A multiple of the divisor by a size has that size as its quotient. -/
theorem units_ofUnits_mul {den : Nat} (hn : IsSize n) (hden : 0 < den) (negative : Bool) :
    (ofUnits negative (n * den) den).units = n :=
  Nat.le_antisymm (units_ofUnits_le hn hden le_rfl negative).2
    (le_units_ofUnits hn hden le_rfl negative)

theorem negative_ofUnits (negative : Bool) (num den : Nat) :
    (ofUnits negative num den).negative = negative := rfl

theorem div_of_isFinite (hx : x.isFinite = true) (hy : y.isFinite = true) (hne : y.magnitude ≠ 0) :
    x / y = ofUnits (x.negative != y.negative) (x.units * unitsPerOne) y.units := by
  have hdiv : x / y = div x y := rfl
  have hzero : y.isZero = false := Bool.eq_false_iff.mpr (hne ∘ isZero_iff.mp)
  rw [hdiv, div, isNaN_eq_false hx, isNaN_eq_false hy, isInfinite_eq_false hx,
    isInfinite_eq_false hy, hzero, Bool.or_self, if_neg Bool.false_ne_true,
    if_neg Bool.false_ne_true, if_neg Bool.false_ne_true, if_neg Bool.false_ne_true]

theorem negative_div_of_not_negative (hx : x.isFinite = true) (hy : y.isFinite = true)
    (hne : y.magnitude ≠ 0) (hsign : y.negative = false) : (x / y).negative = x.negative := by
  rw [div_of_isFinite hx hy hne, negative_ofUnits, hsign, Bool.bne_false]

/-- `s` is a power of two that is about the size of `a`. -/
structure IsScaleOf (s a : Binary64) : Prop where
  isFinite : s.isFinite = true
  not_negative : s.negative = false
  exists_eq_two_pow : ∃ j, s.units = 2 ^ j
  le_double : s.units ≤ 2 * a.units
  lt_double : a.units < 2 * s.units

theorem IsScaleOf.units_pos (h : IsScaleOf s a) : 0 < s.units := by
  obtain ⟨j, hj⟩ := h.exists_eq_two_pow
  rw [hj]
  exact Nat.two_pow_pos j

theorem IsScaleOf.magnitude_ne_zero (h : IsScaleOf s a) : s.magnitude ≠ 0 :=
  fun hzero => h.units_pos.ne' ((units_eq_zero_iff h.isFinite).mpr hzero)

/-- Divided by the scale of the larger one, numbers of different sizes differ by at least
`2 ^ -54`. -/
theorem add_le_units_div (ha : a.isFinite = true) (hb : b.isFinite = true) (hs : IsScaleOf s a)
    (hlt : b.magnitude < a.magnitude) : (b / s).units + 2 ^ 1020 ≤ (a / s).units := by
  obtain ⟨j, hj⟩ := hs.exists_eq_two_pow
  obtain ⟨steps, before, shift, ha_units, hpred, hbefore, hsteps⟩ :=
    exists_unitsOf_pred (Nat.ne_zero_of_lt hlt)
  have hlo := hs.le_double
  have hhi := hs.lt_double
  have ha_steps : a.units = steps * 2 ^ shift := ha_units
  rw [ha_steps, hj] at hlo hhi
  have hj_le : j ≤ 54 + shift := by
    refine (Nat.pow_le_pow_iff_right (by decide : 1 < 2)).mp ?_
    calc 2 ^ j ≤ 2 * (steps * 2 ^ shift) := hlo
      _ ≤ 2 * (2 ^ 53 * 2 ^ shift) := by gcongr
      _ = 2 ^ (54 + shift) := by rw [pow_add]; ring
  have hshift_le : shift ≤ j := by
    have hpow : 2 ^ shift < 2 ^ (j + 1) := by
      calc 2 ^ shift ≤ steps * 2 ^ shift := Nat.le_mul_of_pos_left _ (by omega)
        _ < 2 * 2 ^ j := hhi
        _ = 2 ^ (j + 1) := by rw [pow_succ, Nat.mul_comm]
    have := (Nat.pow_lt_pow_iff_right (by decide : 1 < 2)).mp hpow
    omega
  -- Both quotients are steps of `2 ^ e` units.
  obtain ⟨e, he⟩ : ∃ e, shift + 1074 = e + j := ⟨shift + 1074 - j, by omega⟩
  have hquotient (k : Nat) : k * 2 ^ shift * unitsPerOne = k * 2 ^ e * 2 ^ j := by
    rw [unitsPerOne_eq, mul_assoc, mul_assoc, ← pow_add, ← pow_add, he]
  have hsize {k : Nat} (hk : k ≤ 2 ^ 53) : IsSize (k * 2 ^ e) :=
    isSize_mul_two_pow hk (by omega)
  have hexact : (a / s).units = steps * 2 ^ e := by
    rw [div_of_isFinite ha hs.isFinite hs.magnitude_ne_zero, hj, ha_steps, hquotient]
    exact units_ofUnits_mul (hsize hsteps) (Nat.two_pow_pos j) _
  have hbelow : (b / s).units ≤ before * 2 ^ e := by
    rw [div_of_isFinite hb hs.isFinite hs.magnitude_ne_zero, hj]
    refine (units_ofUnits_le (hsize (by omega)) (Nat.two_pow_pos j) ?_ _).2
    rw [← hquotient, ← hpred]
    refine Nat.mul_le_mul_right _ ?_
    have ha_le := (isFinite_iff.mp ha).le
    exact (unitsOf_le_unitsOf_iff (by omega) (by omega)).mpr (by omega)
  have he_ge : 1020 ≤ e := by omega
  have hstep : 2 ^ 1020 ≤ 2 ^ e := pow_le_pow_right₀ one_le_two he_ge
  rw [hexact]
  calc (b / s).units + 2 ^ 1020 ≤ before * 2 ^ e + 2 ^ e := Nat.add_le_add hbelow hstep
    _ = (before + 1) * 2 ^ e := (Nat.succ_mul _ _).symm
    _ ≤ steps * 2 ^ e := Nat.mul_le_mul_right _ hbefore

/-- Divided by the scale of the larger one, numbers that are not numerically equal differ by at
least `2 ^ -54`. -/
theorem le_natAbs_sub_div (ha : a.isFinite = true) (hb : b.isFinite = true) (hs : IsScaleOf s a)
    (hle : b.magnitude ≤ a.magnitude) (hne : b.numericKey ≠ a.numericKey) :
    2 ^ 1020 ≤ ((a / s).signedUnits - (b / s).signedUnits).natAbs := by
  have hsign (x : Binary64) (hx : x.isFinite = true) : (x / s).negative = x.negative :=
    negative_div_of_not_negative hx hs.isFinite hs.magnitude_ne_zero hs.not_negative
  have ha_sign := hsign a ha
  have hb_sign := hsign b hb
  by_cases hsame : a.negative = b.negative
  · have hlt : b.magnitude < a.magnitude := by
      refine hle.lt_of_ne fun heq => hne ?_
      rw [numericKey, numericKey, heq, hsame]
    have hgap := add_le_units_div ha hb hs hlt
    rw [hsame] at ha_sign
    rw [signedUnits, signedUnits, ha_sign, hb_sign]
    cases b.negative <;> simp only [Bool.false_eq_true, if_true, if_false] <;> omega
  · -- Numbers on both sides of zero are apart by the sum of their sizes.
    have hzero : a.magnitude ≠ 0 := by
      intro hzero
      have hb_zero : b.magnitude = 0 := by omega
      exact hne (by rw [numericKey, numericKey, hzero, hb_zero]; simp)
    have hgap := add_le_units_div (b := zero false) ha (by decide) hs (Nat.pos_of_ne_zero hzero)
    rw [signedUnits, signedUnits, ha_sign, hb_sign]
    cases ha_neg : a.negative <;> cases hb_neg : b.negative <;>
      simp only [Bool.false_eq_true, if_true, if_false] <;> first | omega | simp_all

/-! ### Lower bounds -/

theorem signedUnits_neg (x : Binary64) : (-x).signedUnits = -x.signedUnits := by
  have hneg : (-x).negative = !x.negative := rfl
  have hunits : (-x).units = x.units := rfl
  rw [signedUnits, signedUnits, hneg, hunits]
  cases x.negative <;> simp

theorem le_units_ofSignedUnits {zeroSign : Bool} {i : Int} (hg : IsSize g) (hpos : 0 < g)
    (h : g ≤ i.natAbs) : g ≤ (ofSignedUnits zeroSign i).units := by
  rw [ofSignedUnits, if_neg (by omega)]
  exact le_units_ofUnits hg one_pos (by omega) _

theorem le_units_sub (hx : x.isFinite = true) (hy : y.isFinite = true) (hg : IsSize g)
    (hpos : 0 < g) (h : g ≤ (x.signedUnits - y.signedUnits).natAbs) : g ≤ (x - y).units := by
  show g ≤ (x + -y).units
  rw [add_of_isFinite hx (y := -y) hy, signedUnits_neg]
  exact le_units_ofSignedUnits hg hpos h

/-- A sum of numbers without a minus sign is at least each of them. -/
theorem le_units_add (hx : x.isFinite = true) (hy : y.isFinite = true) (hxsign : x.negative = false)
    (hysign : y.negative = false) (hg : IsSize g) (h : g ≤ x.units + y.units) :
    (x + y).negative = false ∧ g ≤ (x + y).units := by
  rw [add_of_isFinite hx hy, signedUnits_of_not_negative hxsign, signedUnits_of_not_negative hysign,
    hxsign, ← Int.natCast_add]
  refine ⟨?_, ?_⟩
  · have hnot : ¬ ((x.units + y.units : Nat) : Int) < 0 := by omega
    rw [ofSignedUnits, decide_eq_false hnot]
    split <;> rfl
  · rcases Nat.eq_zero_or_pos g with rfl | hpos
    · exact Nat.zero_le _
    · exact le_units_ofSignedUnits hg hpos h

theorem le_units_mul (hx : x.isFinite = true) (hy : y.isFinite = true) (hg : IsSize g)
    (h : g * unitsPerOne ≤ x.units * y.units) : g ≤ (x * y).units := by
  rw [mul_of_isFinite hx hy]
  exact le_units_ofUnits hg unitsPerOne_pos h _

/-! ### Absorption -/

theorem nearest_le_of_lt {num den k : Nat} (hden : 0 < den) (h : 2 * num < (2 * k + 1) * den) :
    nearest num den ≤ k := by
  have hexpand : (2 * k + 1) * den = 2 * (k * den) + den := by ring
  rcases nearest_eq_or num den with ⟨heq, -⟩ | ⟨heq, hup⟩
  · rw [heq]
    refine Nat.lt_succ_iff.mp ((Nat.div_lt_iff_lt_mul hden).mpr ?_)
    rw [Nat.succ_mul]
    omega
  · rw [heq]
    -- A quotient of `k` that is rounded up is at least `k` and a half.
    by_contra hlt
    have hquotient : k * den ≤ num / den * den := Nat.mul_le_mul_right den (by omega)
    have hdiv := Nat.div_add_mod' num den
    omega

theorem unitsOf_absorbing (e : Nat) : unitsOf ((e + 2) * 2 ^ 52 + 2 ^ 52) = 2 ^ (e + 54) := by
  have hlt : 2 ^ 52 < 2 ^ 53 := by decide
  rw [unitsOf_steps hlt (.inr le_rfl), ← pow_add, Nat.add_comm, Nat.add_assoc]

/-- A power of two absorbs what is less than half of the step above it. -/
theorem roundMagnitude_le_of_absorbed {e : Nat} (h : n ≤ 2 ^ (e + 54) + 2 ^ e) :
    roundMagnitude n 1 ≤ (e + 2) * 2 ^ 52 + 2 ^ 52 := by
  rcases Nat.lt_or_ge (2 ^ (e + 54)) n with hlt | hle
  · have hpos : 0 < 2 ^ e := Nat.two_pow_pos e
    have hpow : 2 ^ (e + 54) = 2 ^ 54 * 2 ^ e := by rw [pow_add, Nat.mul_comm]
    have hlog : n.log2 = e + 54 := by
      refine (Nat.log2_eq_iff (by omega)).mpr ⟨hlt.le, ?_⟩
      rw [pow_succ]
      omega
    have hshift : shiftOf n 1 = e + 2 := by
      rw [shiftOf, Nat.div_one, hlog]
      omega
    have hnearest : nearest n (2 ^ (e + 2)) ≤ 2 ^ 52 := by
      refine nearest_le_of_lt (Nat.two_pow_pos _) ?_
      rw [pow_add 2 e 2]
      omega
    rw [roundMagnitude_eq, hshift, Nat.one_mul]
    omega
  · refine roundMagnitude_le_of_le one_pos ?_
    rw [unitsOf_absorbing]
    omega

theorem units_ofUnits_le_two_pow {e : Nat} (he : e ≤ 2043) (h : n ≤ 2 ^ (e + 54) + 2 ^ e)
    (negative : Bool) : (ofUnits negative n 1).isFinite = true ∧
      (ofUnits negative n 1).units ≤ 2 ^ (e + 54) := by
  have hround : (ofUnits negative n 1).magnitude ≤ (e + 2) * 2 ^ 52 + 2 ^ 52 :=
    roundMagnitude_le_of_absorbed h
  have hlt : (e + 2) * 2 ^ 52 + 2 ^ 52 < infinityMagnitude := by
    have hinfinity : infinityMagnitude = 2047 * 2 ^ 52 := rfl
    omega
  refine ⟨isFinite_iff.mpr (hround.trans_lt hlt), ?_⟩
  rw [units, ← unitsOf_absorbing]
  exact (unitsOf_le_unitsOf_iff (hround.trans hlt.le) hlt.le).mpr hround

theorem Within.mono {m : Nat} (h : Within n x) (hle : n ≤ m) : Within m x :=
  ⟨h.isFinite, h.units_le.trans (Nat.mul_le_mul_right _ hle)⟩

/-- A bound of a sum that much smaller summands do not break, however many there are. -/
theorem Within.add_absorbed {e : Nat} (he : e ≤ 900) (hx : Within (2 ^ (e + 54)) x)
    (hy : Within (2 ^ e) y) : Within (2 ^ (e + 54)) (x + y) := by
  rw [add_of_isFinite hx.isFinite hy.isFinite, ofSignedUnits]
  split
  · exact within_zero _ _
  · have hunits (k : Nat) : 2 ^ k * unitsPerOne = 2 ^ (k + 1074) := by
      rw [unitsPerOne_eq, ← pow_add]
    have hx_units := hx.units_le
    have hy_units := hy.units_le
    rw [hunits] at hx_units hy_units
    rw [show e + 54 + 1074 = e + 1074 + 54 by omega] at hx_units
    have htriangle := Int.natAbs_add_le x.signedUnits y.signedUnits
    rw [natAbs_signedUnits, natAbs_signedUnits] at htriangle
    obtain ⟨hfinite, hle⟩ := units_ofUnits_le_two_pow (e := e + 1074) (by omega)
      (htriangle.trans (Nat.add_le_add hx_units hy_units)) (x.signedUnits + y.signedUnits < 0)
    refine ⟨hfinite, hle.trans_eq ?_⟩
    rw [hunits]

end DramTiming.Binary64
