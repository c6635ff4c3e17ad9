import DramTiming.Chart.Axes
import DramTiming.Proofs.Analysis.Definedness
import DramTiming.Proofs.Binary64.Monotone

/-!
# Ranges of axes

The horizontal range of a chart runs from the least to the largest of all tRCD values, and a little
beyond.  Widening it is computed with rounded numbers, which may leave it as it is or make it
infinite, but never narrower (`AxisRange.Contains.padded`).
-/

namespace DramTiming

open Binary64

/-! ### Extremes -/

namespace Binary64

variable {r : Binary64 → Binary64 → Prop} {pick : Binary64 → Binary64 → Binary64}
  {x y start : Binary64} {values : List Binary64}

/-- `pick` takes of two numbers the one that is further on in an order. -/
structure Picks (r : Binary64 → Binary64 → Prop) (pick : Binary64 → Binary64 → Binary64) :
    Prop where
  refl : ∀ {x}, x.isNaN = false → r x x
  trans : ∀ {x y z}, r x y → r y z → r x z
  eq_or : ∀ {x y}, x.isNaN = false → y.isNaN = false → pick x y = x ∨ pick x y = y
  bound : ∀ {x y}, x.isNaN = false → y.isNaN = false → r x (pick x y) ∧ r y (pick x y)

theorem max_eq (hx : x.isNaN = false) (hy : y.isNaN = false) :
    Binary64.max x y = if lt y x then x else y := by
  rw [Binary64.max, hx, hy]
  simp

theorem min_eq (hx : x.isNaN = false) (hy : y.isNaN = false) :
    Binary64.min x y = if lt x y then x else y := by
  rw [Binary64.min, hx, hy]
  simp

theorem picks_max : Picks (fun x y => le x y = true) Binary64.max where
  refl := le_refl
  trans := Binary64.le_trans
  eq_or hx hy := by
    rw [max_eq hx hy]
    split <;> simp
  bound hx hy := by
    rw [max_eq hx hy]
    split
    · next h => exact ⟨le_refl hx, Binary64.le_of_lt h⟩
    · next h => exact ⟨by rwa [← not_le_iff_lt hx hy, not_not] at h, le_refl hy⟩

theorem picks_min : Picks (fun x y => le y x = true) Binary64.min where
  refl := le_refl
  trans hxy hyz := Binary64.le_trans hyz hxy
  eq_or hx hy := by
    rw [min_eq hx hy]
    split <;> simp
  bound hx hy := by
    rw [min_eq hx hy]
    split
    · next h => exact ⟨le_refl hx, Binary64.le_of_lt h⟩
    · next h => exact ⟨by rwa [← not_le_iff_lt hy hx, not_not] at h, le_refl hy⟩

/-- What is picked from a list of numbers is one of them, or what was there before, and none of them
is further on. -/
theorem Picks.foldl (h : Picks r pick) (hstart : start.isNaN = false)
    (hvalues : ∀ v ∈ values, v.isNaN = false) :
    (values.foldl pick start = start ∨ values.foldl pick start ∈ values) ∧
      r start (values.foldl pick start) ∧ ∀ v ∈ values, r v (values.foldl pick start) := by
  induction values generalizing start with
  | nil => exact ⟨.inl rfl, h.refl hstart, nofun⟩
  | cons v values ih =>
    obtain ⟨hv, hrest⟩ := List.forall_mem_cons.mp hvalues
    have hpick := h.eq_or hstart hv
    have hnan : (pick start v).isNaN = false := by
      rcases hpick with heq | heq
      · rwa [heq]
      · rwa [heq]
    obtain ⟨hor, hbound, hall⟩ := ih hnan hrest
    obtain ⟨hleft, hright⟩ := h.bound hstart hv
    rw [List.foldl_cons]
    refine ⟨?_, h.trans hleft hbound, List.forall_mem_cons.mpr ⟨h.trans hright hbound, hall⟩⟩
    rcases hor with heq | hmem
    · rw [heq]
      rcases hpick with heq' | heq'
      · exact .inl heq'
      · rw [heq']
        exact .inr List.mem_cons_self
    · exact .inr (List.mem_cons_of_mem v hmem)

end Binary64

/-! ### Ranges -/

namespace AxisRange

variable {r : AxisRange} {x : Binary64} {e : Nat}

/-- A value lies within a range. -/
structure Contains (r : AxisRange) (x : Binary64) : Prop where
  lo_le : le r.lo x = true
  le_hi : le x r.hi = true

/-- Both ends of a range are finite. -/
structure IsFinite (r : AxisRange) : Prop where
  lo : r.lo.isFinite = true
  hi : r.hi.isFinite = true

/-- A twentieth, as a double. -/
theorem twentieth_spec : (0.05 : Binary64).isFinite = true ∧ (0.05 : Binary64).negative = false ∧
    (0.05 : Binary64).magnitude ≠ 0 ∧ 2 * (0.05 : Binary64).units ≤ unitsPerOne := by
  decide +kernel

theorem padded_of_lt (h : lt r.lo r.hi = true) :
    r.padded = ⟨r.lo - (r.hi - r.lo) * 0.05, r.hi + (r.hi - r.lo) * 0.05⟩ := if_pos h

/-- Widening a range moves neither end inward. -/
theorem IsFinite.padded_outward (hr : r.IsFinite) (h : lt r.lo r.hi = true) :
    le r.padded.lo r.lo = true ∧ le r.hi r.padded.hi = true := by
  obtain ⟨hfinite, hsign, hne, -⟩ := twentieth_spec
  obtain ⟨hspan, hspansign⟩ := sub_not_negative hr.hi hr.lo h
  obtain ⟨hpad, hpadsign⟩ := mul_not_negative hspan hspansign hfinite hsign hne
  rw [padded_of_lt h]
  constructor
  · exact add_le_self hr.lo (neg_le_zero_of_not_negative hpad hpadsign)
  · exact le_add_self hr.hi (zero_le_of_not_negative hpad hpadsign)

theorem Contains.padded (hx : r.Contains x) (hr : r.IsFinite) (h : lt r.lo r.hi = true) :
    r.padded.Contains x := by
  obtain ⟨hlo, hhi⟩ := hr.padded_outward h
  exact ⟨Binary64.le_trans hlo hx.lo_le, Binary64.le_trans hx.le_hi hhi⟩

theorem IsFinite.lo_padded_lt_hi_padded (hr : r.IsFinite) (h : lt r.lo r.hi = true) :
    lt r.padded.lo r.padded.hi = true := by
  obtain ⟨hlo, hhi⟩ := hr.padded_outward h
  exact Binary64.lt_of_le_of_lt hlo (Binary64.lt_of_lt_of_le h hhi)

/-- A range whose ends are far enough from overflow is finite when widened. -/
theorem isFinite_padded (hlo : Within (2 ^ e) r.lo) (hhi : Within (2 ^ e) r.hi) (he : e ≤ 1022)
    (h : lt r.lo r.hi = true) : r.padded.IsFinite := by
  obtain ⟨hfinite, -, -, hunits⟩ := twentieth_spec
  have hwhole : IsWhole (2 ^ e + 2 ^ e) := by
    rw [← mul_two, ← pow_succ]
    exact isWhole_two_pow_of_le (by omega)
  have hspan : Within (2 ^ e + 2 ^ e) (r.hi - r.lo) := hhi.sub hlo hwhole
  have hpad : Within (2 ^ e) ((r.hi - r.lo) * 0.05) := by
    rw [mul_of_isFinite hspan.isFinite hfinite]
    refine within_ofUnits (isWhole_two_pow_of_le (by omega)) unitsPerOne_pos ?_ _
    calc (r.hi - r.lo).units * (0.05 : Binary64).units
        ≤ (2 ^ e + 2 ^ e) * unitsPerOne * (0.05 : Binary64).units :=
          Nat.mul_le_mul_right _ hspan.units_le
      _ = 2 ^ e * unitsPerOne * (2 * (0.05 : Binary64).units) := by ring
      _ ≤ 2 ^ e * unitsPerOne * unitsPerOne := Nat.mul_le_mul_left _ hunits
  rw [padded_of_lt h]
  exact ⟨(hlo.sub hpad hwhole).isFinite, (hhi.add hpad hwhole).isFinite⟩

/-- The range from the least to the largest of some values. -/
def extremes (values : List Binary64) : AxisRange :=
  ⟨values.foldl Binary64.min (infinity false), values.foldl Binary64.max (infinity true)⟩

theorem extremes_contains {values : List Binary64} (h : ∀ v ∈ values, v.isFinite = true)
    (hx : x ∈ values) : (extremes values).Contains x := by
  have hnan : ∀ v ∈ values, v.isNaN = false := fun v hv => isNaN_eq_false (h v hv)
  obtain ⟨-, -, hmin⟩ := picks_min.foldl (isNaN_infinity false) hnan
  obtain ⟨-, -, hmax⟩ := picks_max.foldl (isNaN_infinity true) hnan
  exact ⟨hmin x hx, hmax x hx⟩

/-- The ends of a range of values are among them, if there are any. -/
theorem extremes_mem {values : List Binary64} (h : ∀ v ∈ values, v.isFinite = true)
    (hx : x ∈ values) : (extremes values).lo ∈ values ∧ (extremes values).hi ∈ values := by
  have hnan : ∀ v ∈ values, v.isNaN = false := fun v hv => isNaN_eq_false (h v hv)
  obtain ⟨hlo, hhi⟩ := extremes_contains h hx
  obtain ⟨hmin, -⟩ := picks_min.foldl (isNaN_infinity false) hnan
  obtain ⟨hmax, -⟩ := picks_max.foldl (isNaN_infinity true) hnan
  -- No finite number is beyond an infinity.
  have hinfinite (negative : Bool) : x ≠ infinity negative := by
    rintro rfl
    exact not_isFinite_of_isInfinite (isInfinite_infinity negative) (h _ hx)
  refine ⟨hmin.resolve_left fun heq => ?_, hmax.resolve_left fun heq => ?_⟩
  · have heq' : (extremes values).lo = infinity false := heq
    rw [heq'] at hlo
    exact hinfinite false (eq_infinity_of_le hlo)
  · have heq' : (extremes values).hi = infinity true := heq
    rw [heq'] at hhi
    have hneg : -x = infinity false := eq_infinity_of_le (neg_le_neg_of_le hhi)
    apply hinfinite true
    rw [← neg_neg_self x, hneg]
    rfl

end AxisRange

/-- What holds of all plotted tRCD values holds of those of each point. -/
theorem forall_mem_flatMap_x {α : Type} {points : α → List DataPoint} {as : List α}
    {P : Binary64 → Prop} :
    (∀ x ∈ as.flatMap fun a => (points a).map DataPoint.x, P x) ↔
      ∀ a ∈ as, ∀ p ∈ points a, P p.x := by
  simp only [List.forall_mem_flatMap, List.forall_mem_map]

/-! ### Correlation charts -/

section Correlations

variable {cs : List Correlation} {c : Correlation} {t : Table} {e : Nat}

/-- A correlation that a chart can show. -/
structure Correlation.HasSpan (c : Correlation) : Prop where
  isFinite : ∀ p ∈ c.points, p.x.isFinite = true
  exists_lt : ∃ p ∈ c.points, ∃ q ∈ c.points, lt p.x q.x = true
  coefficients : ∀ p ∈ c.points, coefficientRange.Contains p.y

theorem Table.hasSpan_of_correlation (h : ∀ row ∈ t.rows, row.IsFinite)
    (hc : t.correlation = .ok c) : c.HasSpan := by
  have htwo : 2 ≤ t.distinctTrcd.length := by
    by_contra hfew
    rw [correlation, correlationWith_of_lt (not_le.mp hfew)] at hc
    cases hc
  obtain ⟨_, _, rfl, -⟩ := correlationWith_eq_ok hc
  refine ⟨?_, ?_, ?_⟩
  · exact List.forall_mem_map.mpr (isFinite_of_mem_distinctTrcd h)
  · obtain ⟨x, hx, y, hy, hlt⟩ := exists_lt_distinctTrcd (hasTrcd_of_isFinite h) htwo
    exact ⟨_, List.mem_map_of_mem hx, _, List.mem_map_of_mem hy, hlt⟩
  · refine List.forall_mem_map.mpr fun trcd _ => ?_
    obtain ⟨hlo, hhi⟩ := t.coefficientAt_between trcd
    exact ⟨hlo, hhi⟩

theorem correlationRange_eq (cs : List Correlation) :
    correlationRange cs = (AxisRange.extremes
      (cs.flatMap fun c => c.points.map DataPoint.x)).padded := rfl

/-- The range of tRCD in a correlation chart is not empty, and holds all its values; it is finite
unless they are near overflow. -/
theorem correlationRange_spec (h : ∀ c ∈ cs, c.HasSpan) (hne : cs ≠ []) :
    lt (correlationRange cs).lo (correlationRange cs).hi = true ∧
      (∀ c ∈ cs, ∀ p ∈ c.points, (correlationRange cs).Contains p.x) ∧
      (e ≤ 1022 → (∀ c ∈ cs, ∀ p ∈ c.points, Within (2 ^ e) p.x) →
        (correlationRange cs).IsFinite) := by
  let values := cs.flatMap fun c => c.points.map DataPoint.x
  have hfinite : ∀ x ∈ values, x.isFinite = true :=
    forall_mem_flatMap_x.mpr fun c hc => (h c hc).isFinite
  have hcontains : ∀ c ∈ cs, ∀ p ∈ c.points, (AxisRange.extremes values).Contains p.x :=
    forall_mem_flatMap_x.mp fun x hx => AxisRange.extremes_contains hfinite hx
  obtain ⟨c, hc⟩ := List.exists_mem_of_ne_nil cs hne
  obtain ⟨p, hp, q, hq, hlt⟩ := (h c hc).exists_lt
  have hnarrow := Binary64.lt_of_le_of_lt (hcontains c hc p hp).lo_le
    (Binary64.lt_of_lt_of_le hlt (hcontains c hc q hq).le_hi)
  have hx : p.x ∈ values := List.mem_flatMap_of_mem hc (List.mem_map_of_mem hp)
  obtain ⟨hlo, hhi⟩ := AxisRange.extremes_mem hfinite hx
  have hends : (AxisRange.extremes values).IsFinite := ⟨hfinite _ hlo, hfinite _ hhi⟩
  rw [correlationRange_eq]
  refine ⟨hends.lo_padded_lt_hi_padded hnarrow,
    fun c hc p hp => (hcontains c hc p hp).padded hends hnarrow, fun he hwithin => ?_⟩
  have hsizes : ∀ x ∈ values, Within (2 ^ e) x := forall_mem_flatMap_x.mpr hwithin
  exact AxisRange.isFinite_padded (hsizes _ hlo) (hsizes _ hhi) he hnarrow

end Correlations

/-! ### Curve charts -/

section Curves

variable {curves : List ErrorCurve} {t : Table} {buckets : List Binary64} {e : Nat}

/-- What is plotted are tRCD values of rows. -/
theorem Table.forall_mem_errorCurves (P : Binary64 → Prop) (h : ∀ row ∈ t.rows, P row.trcd) :
    ∀ c ∈ t.errorCurves buckets, ∀ p ∈ c.points, P p.x := by
  intro c hc p hp
  obtain ⟨retention, -, rfl⟩ := List.mem_map.mp hc
  obtain ⟨row, hrow, rfl⟩ := List.mem_map.mp hp
  exact h row (List.mem_of_mem_filter hrow)

/-- The largest tRCD value of curves, or zero if none is above it. -/
def largestTrcd (curves : List ErrorCurve) : Binary64 :=
  (curves.flatMap fun c => c.points.map DataPoint.x).foldl Binary64.max 0

theorem curveRange_eq (curves : List ErrorCurve) :
    curveRange curves =
      ⟨0, if lt 0 (largestTrcd curves) then largestTrcd curves * 1.05 else 1⟩ := rfl

/-- One and a twentieth, as a double. -/
theorem oneAndTwentieth_spec : (1.05 : Binary64).isFinite = true ∧
    (1.05 : Binary64).negative = false ∧ unitsPerOne ≤ (1.05 : Binary64).units ∧
    (1.05 : Binary64).units ≤ 2 * unitsPerOne := by
  decide +kernel

/-- No plotted value is above the largest one; and what holds of zero and all plotted values holds
of the largest one. -/
theorem largestTrcd_spec (h : ∀ c ∈ curves, ∀ p ∈ c.points, p.x.isFinite = true) :
    (∀ c ∈ curves, ∀ p ∈ c.points, le p.x (largestTrcd curves) = true) ∧
      ∀ P : Binary64 → Prop, P 0 → (∀ c ∈ curves, ∀ p ∈ c.points, P p.x) →
        P (largestTrcd curves) := by
  have hnan : ∀ x ∈ curves.flatMap fun c => c.points.map DataPoint.x, x.isNaN = false :=
    forall_mem_flatMap_x.mpr fun c hc p hp => isNaN_eq_false (h c hc p hp)
  obtain ⟨hor, -, hall⟩ := picks_max.foldl isNaN_zero hnan
  refine ⟨forall_mem_flatMap_x.mp hall, fun P hzero hP => ?_⟩
  rcases hor with heq | hmem
  · rw [largestTrcd, heq]
    exact hzero
  · exact forall_mem_flatMap_x.mpr hP _ hmem

/-- The range of tRCD in a curve chart begins at zero and is not empty, and holds all values but
those below zero; it is finite unless they are near overflow. -/
theorem curveRange_spec (h : ∀ c ∈ curves, ∀ p ∈ c.points, p.x.isFinite = true) :
    (curveRange curves).lo = 0 ∧ lt 0 (curveRange curves).hi = true ∧
      (∀ c ∈ curves, ∀ p ∈ c.points, le 0 p.x = true → (curveRange curves).Contains p.x) ∧
      (e ≤ 1022 → (∀ c ∈ curves, ∀ p ∈ c.points, Within (2 ^ e) p.x) →
        (curveRange curves).IsFinite) := by
  obtain ⟨hall, hlargest⟩ := largestTrcd_spec h
  have hzero : ∀ n, Within n 0 := fun n => zero_eq ▸ within_zero n false
  rw [curveRange_eq]
  by_cases hpos : lt 0 (largestTrcd curves) = true
  · obtain ⟨-, hsign, -⟩ := zero_lt_iff.mp hpos
    obtain ⟨hfactor, hfactorsign, hone, htwo⟩ := oneAndTwentieth_spec
    have hfinite : (largestTrcd curves).isFinite = true :=
      hlargest (fun x => x.isFinite = true) (hzero 0).isFinite h
    have hle := le_mul_self hfinite hsign hfactor hfactorsign hone
    rw [if_pos hpos]
    refine ⟨rfl, Binary64.lt_of_lt_of_le hpos hle, fun c hc p hp hnonneg => ?_,
      fun he hwithin => ⟨(hzero 0).isFinite, ?_⟩⟩
    · exact ⟨hnonneg, Binary64.le_trans (hall c hc p hp) hle⟩
    · have hwhole : IsWhole (2 ^ e * 2) := by
        rw [← pow_succ]
        exact isWhole_two_pow_of_le (by omega)
      exact ((hlargest _ (hzero _) hwithin).mul ⟨hfactor, htwo⟩ hwhole).isFinite
  · obtain ⟨hsign, hone, -⟩ := one_spec
    have hlt : lt 0 1 = true := zero_lt_iff.mpr ⟨isNaN_one, hsign, magnitude_one_ne_zero⟩
    rw [if_neg hpos]
    refine ⟨rfl, hlt, fun c hc p hp hnonneg => ⟨hnonneg, ?_⟩,
      fun _ _ => ⟨(hzero 0).isFinite, hone⟩⟩
    -- What is not negative is zero then.
    have hle := hall c hc p hp
    rw [← not_le_iff_lt (le_iff.mp hle).2.1 isNaN_zero, not_not] at hpos
    exact Binary64.le_trans (Binary64.le_trans hle hpos) le_zero_one

end Curves

end DramTiming
