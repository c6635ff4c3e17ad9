import DramTiming.Proofs.Binary64.Magnitude
import DramTiming.Proofs.Binary64.SquareRoot
import DramTiming.Proofs.Statistics.Pearson
import Mathlib.Data.List.Forall2

/-!
# Which samples have a correlation coefficient

Finite samples that vary have a coefficient, however many values they have and whatever their sizes
are, unless a size is so large that its scale is infinite (`pearson_eq_none_iff`).  Two values that
differ leave a deviation of at least `2 ^ -55` from any mean, and so sums of squares that neither
vanish nor leave the finite numbers.
-/

namespace DramTiming.Statistics

open Binary64

variable {scale : Binary64} {values xs xs' ys dx dy : List Binary64}

/-! ### Constant samples -/

/-- Any two of these values are numerically equal. -/
def AllEqual (values : List Binary64) : Prop :=
  ∀ x ∈ values, ∀ y ∈ values, Binary64.eq x y = true

theorem isConstant_iff (h : ∀ v ∈ values, v.isNaN = false) :
    isConstant values = true ↔ AllEqual values := by
  induction values with
  | nil => simp [isConstant, AllEqual]
  | cons x values ih =>
    have ih := ih fun v hv => h v (List.mem_cons_of_mem x hv)
    cases values with
    | nil =>
      have hx : Binary64.eq x x = true :=
        eq_iff.mpr ⟨h x List.mem_cons_self, h x List.mem_cons_self, rfl⟩
      simp [isConstant, AllEqual, hx]
    | cons y rest =>
      rw [isConstant, Bool.and_eq_true, ih]
      constructor
      · rintro ⟨hxy, hrest⟩
        have hkey : ∀ v ∈ x :: y :: rest, v.numericKey = y.numericKey := by
          intro v hv
          rcases List.mem_cons.mp hv with rfl | hv
          · exact (eq_iff.mp hxy).2.2
          · exact (eq_iff.mp (hrest v hv y List.mem_cons_self)).2.2
        intro v hv w hw
        exact eq_iff.mpr ⟨h v hv, h w hw, (hkey v hv).trans (hkey w hw).symm⟩
      · intro hall
        refine ⟨hall x List.mem_cons_self y (by simp), fun v hv w hw => ?_⟩
        exact hall v (List.mem_cons_of_mem x hv) w (List.mem_cons_of_mem x hw)

/-- Samples with values that are numerically equal to others in the same way. -/
theorem isConstant_eq_of_forall₂ {R : Binary64 → Binary64 → Prop}
    (hR : ∀ {x x' y y'}, R x x' → R y y' → Binary64.eq x' y' = Binary64.eq x y)
    (h : List.Forall₂ R xs xs') : isConstant xs' = isConstant xs := by
  induction h with
  | nil => rfl
  | cons hx hrest ih =>
    cases hrest with
    | nil => rfl
    | cons hy hrest => rw [isConstant, isConstant, hR hx hy, ih]

/-! ### A deviation that does not vanish -/

/-- Of two values that differ, one deviates from any mean. -/
theorem exists_le_units_deviation {a b : Binary64} (h : ∀ v ∈ values, Within 2 (v / scale))
    (ha : a ∈ values) (hb : b ∈ values) (hafinite : a.isFinite = true)
    (hbfinite : b.isFinite = true) (hscale : IsScaleOf scale a) (hle : b.magnitude ≤ a.magnitude)
    (hne : b.numericKey ≠ a.numericKey) :
    ∃ d ∈ deviations (Binary64.ofNat values.length) scale values, 2 ^ 1019 ≤ d.units := by
  obtain ⟨hmean, -⟩ := within_deviations h (List.length_pos_of_mem ha)
  have hgap := le_natAbs_sub_div hafinite hbfinite hscale hle hne
  have hmem {v : Binary64} (hv : v ∈ values) :
      v / scale - sum (values.map (· / scale)) / Binary64.ofNat values.length ∈
        deviations (Binary64.ofNat values.length) scale values :=
    List.mem_map_of_mem (List.mem_map_of_mem hv)
  have hpos : 0 < 2 ^ 1019 := pow_pos two_pos 1019
  have hlarge {v : Binary64} (hv : v ∈ values) (hfar : 2 ^ 1019 ≤ ((v / scale).signedUnits -
      (sum (values.map (· / scale)) / Binary64.ofNat values.length).signedUnits).natAbs) :
      ∃ d ∈ deviations (Binary64.ofNat values.length) scale values, 2 ^ 1019 ≤ d.units :=
    ⟨_, hmem hv, le_units_sub (h v hv).isFinite hmean.isFinite (isSize_two_pow (by decide))
      hpos hfar⟩
  have hdouble : 2 ^ 1020 = 2 * 2 ^ 1019 := by rw [← pow_succ']
  rw [hdouble] at hgap
  generalize 2 ^ 1019 = g at hgap hlarge ⊢
  by_cases hfar : g ≤ ((a / scale).signedUnits -
      (sum (values.map (· / scale)) / Binary64.ofNat values.length).signedUnits).natAbs
  · exact hlarge ha hfar
  · exact hlarge hb (by omega)

/-! ### Sums of squares -/

theorem le_units_foldl_add {e g : Nat} (he : e ≤ 900) (hg : IsSize g) {sofar : Binary64}
    (hsofar : Within (2 ^ (e + 54)) sofar) (hsign : sofar.negative = false)
    (h : ∀ v ∈ values, Within (2 ^ e) v ∧ v.negative = false)
    (hlarge : g ≤ sofar.units ∨ ∃ v ∈ values, g ≤ v.units) :
    (values.foldl (· + ·) sofar).negative = false ∧ g ≤ (values.foldl (· + ·) sofar).units := by
  induction values generalizing sofar with
  | nil =>
    rcases hlarge with hle | ⟨v, hv, -⟩
    · exact ⟨hsign, hle⟩
    · cases hv
  | cons v values ih =>
    obtain ⟨hv, hvsign⟩ := h v List.mem_cons_self
    have hrest : ∀ w ∈ values, Within (2 ^ e) w ∧ w.negative = false :=
      fun w hw => h w (List.mem_cons_of_mem v hw)
    have hnext {k : Nat} (hk : IsSize k) (hle : k ≤ sofar.units + v.units) :=
      le_units_add hsofar.isFinite hv.isFinite hsign hvsign hk hle
    obtain ⟨hnextsign, -⟩ := hnext (k := 0) ⟨0, by decide, rfl⟩ (Nat.zero_le _)
    refine ih (hsofar.add_absorbed he hv) hnextsign hrest ?_
    rcases hlarge with hle | ⟨w, hw, hle⟩
    · exact .inl (hnext hg (by omega)).2
    · rcases List.mem_cons.mp hw with rfl | hw
      · exact .inl (hnext hg (by omega)).2
      · exact .inr ⟨w, hw, hle⟩

theorem square_spec {d : Binary64} (h : Within (2 ^ 56) d) :
    Within (2 ^ 112) (d * d) ∧ (d * d).negative = false := by
  refine ⟨h.mul h (isWhole_two_pow (e := 112) (by decide)), ?_⟩
  rw [mul_of_isFinite h.isFinite h.isFinite, negative_ofUnits, bne_self_eq_false]

theorem le_units_dot_self (h : ∀ d ∈ dx, Within (2 ^ 56) d)
    (hlarge : ∃ d ∈ dx, 2 ^ 1019 ≤ d.units) :
    (dot dx dx).negative = false ∧ 2 ^ 964 ≤ (dot dx dx).units := by
  rw [dot, List.zipWith_self, sum]
  have hzero : Within (2 ^ (112 + 54)) (0 : Binary64) := by
    rw [zero_eq]
    exact within_zero _ false
  refine le_units_foldl_add (by decide) (isSize_two_pow (by decide)) hzero rfl
    (List.forall_mem_map.mpr fun d hd => square_spec (h d hd)) (.inr ?_)
  obtain ⟨d, hd, hunits⟩ := hlarge
  refine ⟨d * d, List.mem_map_of_mem hd, ?_⟩
  refine le_units_mul (h d hd).isFinite (h d hd).isFinite (isSize_two_pow (by decide)) ?_
  calc 2 ^ 964 * unitsPerOne = 2 ^ 1019 * 2 ^ 1019 := by
        rw [unitsPerOne_eq, ← pow_add, ← pow_add]
    _ ≤ d.units * d.units := Nat.mul_le_mul hunits hunits

/-! ### The spread -/

/-- Deviations that are bounded, and do not all vanish. -/
structure Deviating (dx : List Binary64) : Prop where
  within : ∀ d ∈ dx, Within (2 ^ 56) d
  exists_large : ∃ d ∈ dx, 2 ^ 1019 ≤ d.units

/-- The product of the sums of squares is as large as the range of doubles needs. -/
theorem Deviating.dots_spec (hx : Deviating dx) (hy : Deviating dy) :
    Within (2 ^ 166 * 2 ^ 166) (dot dx dx * dot dy dy) ∧
      2 ^ (802 + 52) * unitsPerOne ≤ (dot dx dx).units * (dot dy dy).units ∧
      (dot dx dx * dot dy dy).negative = false ∧ 0 < (dot dx dx * dot dy dy).units := by
  have hdotX := within_dot hx.within hx.within
  have hdotY := within_dot hy.within hy.within
  obtain ⟨hsignX, hunitsX⟩ := le_units_dot_self hx.within hx.exists_large
  obtain ⟨hsignY, hunitsY⟩ := le_units_dot_self hy.within hy.exists_large
  have hlarge : 2 ^ (802 + 52) * unitsPerOne ≤ (dot dx dx).units * (dot dy dy).units := by
    calc 2 ^ (802 + 52) * unitsPerOne = 2 ^ 964 * 2 ^ 964 := by
          rw [unitsPerOne_eq, ← pow_add, ← pow_add]
      _ ≤ (dot dx dx).units * (dot dy dy).units := Nat.mul_le_mul hunitsX hunitsY
  refine ⟨hdotX.mul hdotY (by rw [← pow_add]; exact isWhole_two_pow (by decide)), hlarge, ?_, ?_⟩
  · rw [mul_of_isFinite hdotX.isFinite hdotY.isFinite, negative_ofUnits, hsignX, hsignY,
      bne_self_eq_false]
  · have hpos : 0 < 2 ^ (802 + 52) := pow_pos two_pos _
    exact hpos.trans_le
      (le_units_mul hdotX.isFinite hdotY.isFinite (isSize_two_pow (by decide)) hlarge)

theorem Deviating.zero_lt_spread (hx : Deviating dx) (hy : Deviating dy) :
    lt 0 (spread sqrt dx dy) = true := by
  obtain ⟨hwithin, -, hsign, hpos⟩ := hx.dots_spec hy
  exact zero_lt_sqrt hwithin.isFinite hsign hpos

/-- A sample whose deviations are all zero leaves no spread. -/
theorem not_zero_lt_spread (h : Within 0 (dot dx dx * dot dy dy)) :
    ¬ lt 0 (spread sqrt dx dy) = true := by
  have hunits : (dot dx dx * dot dy dy).units = 0 := by
    have := h.units_le
    omega
  have hzero := (units_eq_zero_iff h.isFinite).mp hunits
  rw [spread, sqrt, isZero_iff.mpr hzero, Bool.or_true, if_pos rfl, zero_lt_iff]
  exact fun hlt => hlt.2.2 hzero

/-! ### Scales -/

theorem largestSize_spec (h : ∀ v ∈ values, v.isFinite = true) :
    (largestSize values).isFinite = true ∧ (largestSize values).negative = false ∧
      (∀ v ∈ values, v.magnitude ≤ (largestSize values).magnitude) ∧
      ((largestSize values).magnitude ≠ 0 → ∃ v ∈ values, largestSize values = v.abs) := by
  obtain ⟨-, hsign, -, hall, hor⟩ := foldl_max_spec isNaN_zero rfl values
  refine ⟨?_, hsign, fun v hv => hall v hv (isNaN_eq_false (h v hv)), fun hne => ?_⟩
  · rcases hor with heq | ⟨v, hv, heq⟩
    · rw [largestSize, heq, zero_eq]
      exact (within_zero 0 false).isFinite
    · rw [largestSize, heq]
      exact h v hv
  · rcases hor with heq | hmem
    · rw [largestSize, heq, zero_eq] at hne
      exact absurd rfl hne
    · exact hmem

/-- A sample that varies has a value of the largest size, which is not zero, and another value. -/
theorem exists_largest (h : ∀ v ∈ values, v.isFinite = true) (hvary : ¬ isConstant values = true) :
    (largestSize values).magnitude ≠ 0 ∧
      ∃ a ∈ values, ∃ b ∈ values, largestSize values = a.abs ∧ b.numericKey ≠ a.numericKey := by
  have hnan : ∀ v ∈ values, v.isNaN = false := fun v hv => isNaN_eq_false (h v hv)
  obtain ⟨-, -, hall, hmem⟩ := largestSize_spec h
  rw [isConstant_iff hnan, AllEqual] at hvary
  push Not at hvary
  obtain ⟨x, hx, y, hy, hxy⟩ := hvary
  have hkeys : x.numericKey ≠ y.numericKey := fun heq =>
    hxy (eq_iff.mpr ⟨hnan x hx, hnan y hy, heq⟩)
  have hne : (largestSize values).magnitude ≠ 0 := by
    intro hzero
    -- Both would be zero.
    have hkey {v : Binary64} (hv : v ∈ values) : v.numericKey = 0 := by
      have := hall v hv
      unfold numericKey
      split <;> omega
    exact hkeys ((hkey hx).trans (hkey hy).symm)
  obtain ⟨a, ha, heq⟩ := hmem hne
  refine ⟨hne, a, ha, ?_⟩
  by_cases hax : x.numericKey = a.numericKey
  · exact ⟨y, hy, heq, fun hay => hkeys (hax.trans hay.symm)⟩
  · exact ⟨x, hx, heq, hax⟩

theorem powerScale_of_ne_zero (h : ∀ v ∈ values, v.isFinite = true)
    (hne : (largestSize values).magnitude ≠ 0) :
    powerScale values = twoPow (log2 (largestSize values)).floorInt := by
  obtain ⟨hfinite, hsign, -, -⟩ := largestSize_spec h
  rw [powerScale, hfinite, zero_lt_iff.mpr ⟨isNaN_eq_false hfinite, hsign, hne⟩, Bool.and_self,
    if_pos rfl]

/-- The scale of a sample that varies is about its largest size, unless it is infinite. -/
theorem isScaleOf_powerScale (h : ∀ v ∈ values, v.isFinite = true)
    (hvary : ¬ isConstant values = true) (hscale : ∀ v ∈ values, ¬ v.OverflowsPower) :
    IsScaleOf (powerScale values) (largestSize values) := by
  obtain ⟨hne, a, ha, -, -, heq, -⟩ := exists_largest h hvary
  obtain ⟨hfinite, hsign, -, -⟩ := largestSize_spec h
  rw [powerScale_of_ne_zero h hne]
  exact isScaleOf_twoPow hfinite hsign hne (by rw [heq]; exact hscale a ha)

/-- A sample that varies has a deviation that does not vanish, unless its scale is infinite. -/
theorem exists_le_units_of_varies (h : ∀ v ∈ values, v.isFinite = true)
    (hvary : ¬ isConstant values = true) (hscale : ∀ v ∈ values, ¬ v.OverflowsPower) :
    ∃ d ∈ deviations (Binary64.ofNat values.length) (powerScale values) values,
      2 ^ 1019 ≤ d.units := by
  obtain ⟨-, a, ha, b, hb, heq, hab⟩ := exists_largest h hvary
  obtain ⟨-, -, hall, -⟩ := largestSize_spec h
  have hpower := isScaleOf_powerScale h hvary hscale
  have hle := hall b hb
  rw [heq] at hpower hle
  exact exists_le_units_deviation (fun v hv => within_div_powerScale h hv) ha hb (h a ha) (h b hb)
    ⟨hpower.isFinite, hpower.not_negative, hpower.exists_eq_two_pow, hpower.le_double,
      hpower.lt_double⟩ hle hab

theorem within_zero_foldl_add {sofar : Binary64} (hsofar : Within 0 sofar)
    (h : ∀ v ∈ values, Within 0 v) : Within 0 (values.foldl (· + ·) sofar) := by
  induction values generalizing sofar with
  | nil => exact hsofar
  | cons v values ih =>
    refine ih (hsofar.add (h v List.mem_cons_self) (isWhole_of_le (Nat.zero_le _))) ?_
    exact fun w hw => h w (List.mem_cons_of_mem v hw)

theorem within_zero_sum (h : ∀ v ∈ values, Within 0 v) : Within 0 (sum values) := by
  refine within_zero_foldl_add ?_ h
  rw [zero_eq]
  exact within_zero _ false

/-- Divided by an infinite scale, all values vanish, and so do their squared deviations. -/
theorem within_zero_dot_self (h : ∀ v ∈ values, v.isFinite = true)
    (hscale : ∃ v ∈ values, v.OverflowsPower) :
    Within 0 (dot (deviations (Binary64.ofNat values.length) (powerScale values) values)
      (deviations (Binary64.ofNat values.length) (powerScale values) values)) := by
  obtain ⟨v, hv, hover⟩ := hscale
  obtain ⟨hfinite, hsign, hall, -⟩ := largestSize_spec h
  have hover' : (largestSize values).OverflowsPower := le_trans hover (hall v hv)
  have hne : (largestSize values).magnitude ≠ 0 :=
    (Nat.lt_of_lt_of_le (by decide : 0 < overflowMagnitude) hover').ne'
  have hinf : (powerScale values).isInfinite = true := by
    rw [powerScale_of_ne_zero h hne]
    exact isInfinite_twoPow hfinite hsign hover'
  have hwhole : IsWhole 0 := isWhole_of_le (Nat.zero_le _)
  have hscaled : ∀ w ∈ values, Within 0 (w / powerScale values) := by
    intro w hw
    refine within_div (h w hw) (isNaN_eq_false_of_isInfinite hinf) ?_ (fun hfin => ?_) hwhole
    · rw [isInfinite_iff.mp hinf]
      decide
    · exact absurd hfin (not_isFinite_of_isInfinite hinf)
  have hlength : 0 < (values.map (· / powerScale values)).length := by
    simpa using List.length_pos_of_mem hv
  have hmean := within_mean hlength hwhole (within_zero_sum (List.forall_mem_map.mpr hscaled))
  rw [List.length_map] at hmean
  rw [dot, List.zipWith_self]
  refine within_zero_sum (List.forall_mem_map.mpr ?_)
  unfold deviations
  dsimp only
  rw [List.forall_mem_map, List.forall_mem_map]
  intro w hw
  have hdeviation := (hscaled w hw).sub hmean hwhole
  exact hdeviation.mul hdeviation hwhole

/-! ### Coefficients -/

/-- The spread of samples that vary vanishes exactly if the scale of one of them is infinite. -/
theorem zero_lt_spread_iff (hsame : xs.length = ys.length) (hxs : ∀ x ∈ xs, x.isFinite = true)
    (hys : ∀ y ∈ ys, y.isFinite = true) (hvaryX : ¬ isConstant xs = true)
    (hvaryY : ¬ isConstant ys = true) :
    lt 0 (spread sqrt (deviations (Binary64.ofNat xs.length) (powerScale xs) xs)
        (deviations (Binary64.ofNat xs.length) (powerScale ys) ys)) = true ↔
      ¬ ((∃ x ∈ xs, x.OverflowsPower) ∨ ∃ y ∈ ys, y.OverflowsPower) := by
  have hpos {values : List Binary64} (hvary : ¬ isConstant values = true) : 0 < values.length :=
    List.length_pos_iff.mpr fun hnil => hvary (by rw [hnil]; rfl)
  have hdx := (within_deviations (fun v hv => within_div_powerScale hxs hv)
    (hpos hvaryX)).2
  have hdy := (within_deviations (fun v hv => within_div_powerScale hys hv)
    (hpos hvaryY)).2
  constructor
  · intro hlt hover
    refine not_zero_lt_spread ?_ hlt
    rw [hsame] at hdx ⊢
    rcases hover with hx | hy
    · have hzero := within_zero_dot_self hxs hx
      rw [hsame] at hzero
      exact hzero.mul (within_dot hdy hdy)
        (by rw [Nat.zero_mul]; exact isWhole_of_le (by decide))
    · exact (within_dot hdx hdx).mul (within_zero_dot_self hys hy)
        (isWhole_of_le (by decide))
  · intro hscale
    push Not at hscale
    have hlargeX := exists_le_units_of_varies hxs hvaryX hscale.1
    have hlargeY := exists_le_units_of_varies hys hvaryY hscale.2
    rw [← hsame] at hdy hlargeY
    exact Deviating.zero_lt_spread ⟨hdx, hlargeX⟩ ⟨hdy, hlargeY⟩

/-- Two finite samples of one size have no coefficient exactly if the values of one are all equal,
or one has a value of a size so large that its scale is infinite. -/
theorem pearson_eq_none_iff (hsame : xs.length = ys.length) (htwo : 2 ≤ xs.length)
    (hxs : ∀ x ∈ xs, x.isFinite = true) (hys : ∀ y ∈ ys, y.isFinite = true) :
    pearson xs ys = none ↔
      AllEqual xs ∨ AllEqual ys ∨ (∃ x ∈ xs, x.OverflowsPower) ∨ ∃ y ∈ ys, y.OverflowsPower := by
  rw [← isConstant_iff fun x hx => isNaN_eq_false (hxs x hx),
    ← isConstant_iff fun y hy => isNaN_eq_false (hys y hy)]
  unfold pearson pearsonScaled
  by_cases hconstant : isConstant xs = true ∨ isConstant ys = true
  · rw [if_pos (.inr (.inr hconstant))]
    exact iff_of_true rfl (hconstant.imp_right .inl)
  · obtain ⟨hvaryX, hvaryY⟩ := not_or.mp hconstant
    have hspread := zero_lt_spread_iff hsame hxs hys hvaryX hvaryY
    rw [if_neg (by simp only [not_or]; exact ⟨by simpa using hsame, by omega, hvaryX, hvaryY⟩)]
    dsimp only
    split
    · next hlt =>
      refine iff_of_false (Option.some_ne_none _) ?_
      rintro (hx | hy | hover)
      · exact hvaryX hx
      · exact hvaryY hy
      · exact hspread.mp hlt hover
    · next hnot =>
      exact iff_of_true rfl (.inr (.inr (not_not.mp fun hno => hnot (hspread.mpr hno))))

theorem pearson_of_length_lt (h : xs.length < 2) : pearson xs ys = none := by
  rw [pearson, pearsonScaled, if_pos (.inr (.inl h))]

end DramTiming.Statistics
