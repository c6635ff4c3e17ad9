import DramTiming.Proofs.Binary64.Scaling
import DramTiming.Statistics.Pearson

/-!
# The range of correlation coefficients

A coefficient of doubles is a number from minus one to one, however many they are
(`pearson_between`).  After the division by a power of two no finite value is above two, so no sum
leaves the finite numbers: where it has grown far enough, further values are rounded away.  One
value that is not finite leaves a deviation without a value, and then there is no coefficient.
-/

namespace DramTiming.Statistics

open Binary64

variable {scale u : Binary64} {values xs ys dx dy : List Binary64}

/-! ### Sums -/

/-- A sum of values of at most a power of two stays within `2 ^ 54` times as much, however many they
are: what is added to a sum of that size is rounded away. -/
theorem within_foldl_add {e : Nat} (he : e ≤ 900) {sofar : Binary64}
    (hsofar : Within (2 ^ (e + 54)) sofar) (h : ∀ v ∈ values, Within (2 ^ e) v) :
    Within (2 ^ (e + 54)) (values.foldl (· + ·) sofar) := by
  induction values generalizing sofar with
  | nil => exact hsofar
  | cons v values ih =>
    exact ih (hsofar.add_absorbed he (h v List.mem_cons_self))
      fun w hw => h w (List.mem_cons_of_mem v hw)

theorem within_sum {e : Nat} (he : e ≤ 900) (h : ∀ v ∈ values, Within (2 ^ e) v) :
    Within (2 ^ (e + 54)) (sum values) := by
  refine within_foldl_add he ?_ h
  rw [zero_eq]
  exact within_zero _ false

/-- What is not finite absorbs whatever is added to it, or loses its value. -/
theorem absorbs_add (hu : ¬ u.isFinite = true) {sofar : Binary64}
    (h : sofar = u ∨ sofar.isNaN = true) (v : Binary64) :
    sofar + v = u ∨ (sofar + v).isNaN = true := by
  rcases h with rfl | hnan
  · rcases isNaN_or_isInfinite_of_not_isFinite hu with hnan | hinf
    · exact .inr (isNaN_add (.inl hnan))
    · rcases infinite_add hinf (y := v) with heq | heq
      · exact .inl heq
      · exact .inr (heq ▸ isNaN_nan)
  · exact .inr (isNaN_add (.inl hnan))

theorem absorbs_foldl_add (hu : ¬ u.isFinite = true) {sofar : Binary64}
    (h : sofar = u ∨ sofar.isNaN = true) (values : List Binary64) :
    values.foldl (· + ·) sofar = u ∨ (values.foldl (· + ·) sofar).isNaN = true := by
  induction values generalizing sofar with
  | nil => exact h
  | cons v values ih => exact ih (absorbs_add hu h v)

theorem sum_of_not_isFinite (hu : ¬ u.isFinite = true) (hmem : u ∈ values) :
    sum values = u ∨ (sum values).isNaN = true := by
  obtain ⟨before, after, rfl⟩ := List.append_of_mem hmem
  rw [sum, List.foldl_append, List.foldl_cons]
  refine absorbs_foldl_add hu ?_ after
  rcases isNaN_or_isInfinite_of_not_isFinite hu with hnan | hinf
  · exact .inr (isNaN_add (.inr hnan))
  · rcases add_infinite hinf (x := before.foldl (· + ·) 0) with heq | heq
    · exact .inl heq
    · exact .inr (heq ▸ isNaN_nan)

theorem isNaN_sum (hu : u.isNaN = true) (hmem : u ∈ values) : (sum values).isNaN = true := by
  rcases sum_of_not_isFinite (not_isFinite_of_isNaN hu) hmem with heq | hnan
  · rw [heq]
    exact hu
  · exact hnan

theorem isNaN_dot_self (hu : u.isNaN = true) (hmem : u ∈ dx) : (dot dx dx).isNaN = true := by
  refine isNaN_sum (isNaN_mul (.inl hu) : (u * u).isNaN = true) ?_
  rw [List.zipWith_self]
  exact List.mem_map_of_mem hmem

theorem within_products {a b n : Nat} (hab : a * b = n) (hn : IsWhole n)
    (hdx : ∀ d ∈ dx, Within a d) (hdy : ∀ d ∈ dy, Within b d) :
    ∀ p ∈ List.zipWith (· * ·) dx dy, Within n p := by
  intro p hp
  rw [← List.map_uncurry_zip_eq_zipWith] at hp
  obtain ⟨⟨d, d'⟩, hmem, rfl⟩ := List.mem_map.mp hp
  obtain ⟨hd, hd'⟩ := List.of_mem_zip hmem
  rw [← hab] at hn ⊢
  exact (hdx d hd).mul (hdy d' hd') hn

theorem within_dot (hdx : ∀ d ∈ dx, Within (2 ^ 56) d)
    (hdy : ∀ d ∈ dy, Within (2 ^ 56) d) :
    Within (2 ^ 166) (dot dx dy) :=
  within_sum (e := 112) (by decide)
    (within_products (by rw [← pow_add]) (isWhole_two_pow (by decide)) hdx hdy)

/-! ### Scales -/

/-- The largest size in a list is at least that of every number, and either zero or the size of
one of them. -/
theorem foldl_max_spec {largest : Binary64} (hnan : largest.isNaN = false)
    (hsign : largest.negative = false) (values : List Binary64) :
    let result := values.foldl (fun largest x => Binary64.max largest x.abs) largest
    result.isNaN = false ∧ result.negative = false ∧ largest.magnitude ≤ result.magnitude ∧
      (∀ v ∈ values, v.isNaN = false → v.magnitude ≤ result.magnitude) ∧
      (result = largest ∨ ∃ v ∈ values, result = v.abs) := by
  induction values generalizing largest with
  | nil => exact ⟨hnan, hsign, le_rfl, nofun, .inl rfl⟩
  | cons v values ih =>
    obtain ⟨hnan', hsign', hle, hv, hor⟩ := max_abs_spec hnan hsign v
    obtain ⟨hnanR, hsignR, hleR, hallR, horR⟩ := ih hnan' hsign'
    refine ⟨hnanR, hsignR, hle.trans hleR, fun w hw hwnan => ?_, ?_⟩
    · rcases List.mem_cons.mp hw with rfl | hw
      · exact (hv hwnan).trans hleR
      · exact hallR w hw hwnan
    · rcases horR with heq | ⟨w, hw, heq⟩
      · rcases hor with heq' | ⟨-, heq'⟩
        · exact .inl (heq.trans heq')
        · exact .inr ⟨v, List.mem_cons_self, heq.trans heq'⟩
      · exact .inr ⟨w, List.mem_cons_of_mem v hw, heq⟩

/-- Divided by its scale, no value of a finite sample is above two. -/
theorem within_div_powerScale (h : ∀ v ∈ values, v.isFinite = true) {v : Binary64}
    (hv : v ∈ values) : Within 2 (v / powerScale values) := by
  obtain ⟨hnan, hsign, -, hall, hor⟩ := foldl_max_spec isNaN_zero rfl values
  have hmagnitude : v.magnitude ≤ (largestSize values).magnitude :=
    hall v hv (isNaN_eq_false (h v hv))
  have hfinite : (largestSize values).isFinite = true := by
    rcases hor with heq | ⟨w, hw, heq⟩
    · rw [largestSize, heq, zero_eq]
      exact (within_zero 0 false).isFinite
    · rw [largestSize, heq]
      exact h w hw
  have hwhole : IsWhole 2 := isWhole_of_le (by decide)
  unfold powerScale
  dsimp only
  by_cases hzero : (largestSize values).magnitude = 0
  · -- Then all values are zero.
    have hlt : lt 0 (largestSize values) = false := by
      rw [Bool.eq_false_iff, Ne, zero_lt_iff]
      exact fun h => h.2.2 hzero
    rw [hlt, Bool.false_and, if_neg Bool.false_ne_true]
    refine within_div (h v hv) isNaN_one magnitude_one_ne_zero (fun _ => ?_) hwhole
    rw [(units_eq_zero_iff (h v hv)).mpr (by omega)]
    exact Nat.zero_le _
  · have hlt : lt 0 (largestSize values) = true := zero_lt_iff.mpr ⟨hnan, hsign, hzero⟩
    rw [hlt, hfinite, Bool.true_and, if_pos rfl]
    obtain ⟨hscale, hne, hunits⟩ := units_lt_twoPow_floorInt_log2 hfinite hsign hzero
    refine within_div (h v hv) hscale hne (fun _ => ?_) hwhole
    have hle := (units_le_units_iff (h v hv) hfinite).mpr hmagnitude
    omega

/-! ### Deviations -/

/-- The size of a sample is a number of at least one. -/
theorem le_units_size (hpos : 0 < values.length) :
    (Binary64.ofNat values.length).isNaN = false ∧ (Binary64.ofNat values.length).magnitude ≠ 0 ∧
      unitsPerOne ≤ (Binary64.ofNat values.length).units := by
  have hunits := le_units_ofNat (isWhole_of_le (n := 1) (by decide)) hpos
  rw [Nat.one_mul] at hunits
  refine ⟨isNaN_ofUnits _ _ _, fun hzero => ?_, hunits⟩
  rw [units, hzero] at hunits
  exact absurd (unitsPerOne_pos.trans_le hunits) (by decide)

theorem within_mean {n : Nat} (hpos : 0 < values.length) (hn : IsWhole n)
    (h : Within n (sum values)) : Within n (sum values / Binary64.ofNat values.length) := by
  obtain ⟨hnan, hne, hunits⟩ := le_units_size hpos
  exact within_div h.isFinite hnan hne
    (fun _ => h.units_le.trans (Nat.mul_le_mul_left n hunits)) hn

/-- Scaled values of at most two have a bounded mean, and bounded deviations from it. -/
theorem within_deviations (h : ∀ v ∈ values, Within 2 (v / scale))
    (hpos : 0 < values.length) :
    Within (2 ^ 55) (sum (values.map (· / scale)) / Binary64.ofNat values.length) ∧
      ∀ d ∈ deviations (Binary64.ofNat values.length) scale values, Within (2 ^ 56) d := by
  have hsum : Within (2 ^ (1 + 54)) (sum (values.map (· / scale))) :=
    within_sum (by decide) (List.forall_mem_map.mpr h)
  have hlength : 0 < (values.map (· / scale)).length := by simpa using hpos
  have hmean := within_mean hlength (isWhole_two_pow (by decide)) hsum
  rw [List.length_map] at hmean
  refine ⟨hmean, ?_⟩
  unfold deviations
  dsimp only
  rw [List.forall_mem_map, List.forall_mem_map]
  intro v hv
  have hscaled : Within (2 ^ 55) (v / scale) := (h v hv).mono (by decide)
  exact hscaled.sub hmean (isWhole_two_pow (e := 56) (by decide))

/-- A value that is not finite has a deviation without a value. -/
theorem exists_isNaN_deviation {v : Binary64} (hv : v ∈ values) (hnot : ¬ v.isFinite = true)
    (scale : Binary64) :
    ∃ d ∈ deviations (Binary64.ofNat values.length) scale values, d.isNaN = true := by
  have hscaled : ¬ (v / scale).isFinite = true := not_isFinite_div hnot scale
  have hmem : v / scale ∈ values.map (· / scale) := List.mem_map_of_mem hv
  refine ⟨_, List.mem_map_of_mem hmem, ?_⟩
  rcases isNaN_or_isInfinite_of_not_isFinite hscaled with hnan | hinf
  · exact isNaN_sub (.inl hnan)
  rcases sum_of_not_isFinite hscaled hmem with heq | hnan
  · rw [heq]
    by_cases hsize : (Binary64.ofNat values.length).isInfinite = true
    · rw [infinite_div_infinite hinf hsize]
      exact isNaN_sub (.inr isNaN_nan)
    · -- The mean is the same infinity.
      have hfinite : (Binary64.ofNat values.length).isFinite = true :=
        isFinite_of_not_isNaN_of_not_isInfinite (isNaN_ofUnits false _ 1) hsize
      rw [infinite_div hinf hfinite rfl, eq_infinity hinf, infinity_sub_infinity]
      exact isNaN_nan
  · exact isNaN_sub (.inr (isNaN_div (.inl hnan)))

/-! ### Coefficients -/

/-- A spread that has a value is that of sums that have one. -/
theorem isNaN_dot_of_spread (h : (spread sqrt dx dy).isNaN = false) :
    (dot dx dx).isNaN = false ∧ (dot dy dy).isNaN = false := by
  have hnot (hnan : (dot dx dx).isNaN = true ∨ (dot dy dy).isNaN = true) : False := by
    have hproduct := isNaN_mul hnan
    rw [spread, sqrt_eq_self_of_isNaN hproduct, hproduct] at h
    cases h
  exact ⟨Bool.eq_false_iff.mpr fun hnan => hnot (.inl hnan),
    Bool.eq_false_iff.mpr fun hnan => hnot (.inr hnan)⟩

/-- All values of a sample are finite if its squared deviations have a sum. -/
theorem isFinite_of_isNaN_dot
    (h : (dot (deviations (Binary64.ofNat values.length) scale values)
      (deviations (Binary64.ofNat values.length) scale values)).isNaN = false) :
    ∀ v ∈ values, v.isFinite = true := by
  intro v hv
  by_contra hnot
  obtain ⟨d, hd, hdnan⟩ := exists_isNaN_deviation hv hnot scale
  rw [isNaN_dot_self hdnan hd] at h
  cases h

/-- A coefficient is that of samples of one size with a spread above zero. -/
theorem pearson_eq_some {r : Binary64} (h : pearson xs ys = some r) :
    let dx := deviations (Binary64.ofNat xs.length) (powerScale xs) xs
    let dy := deviations (Binary64.ofNat xs.length) (powerScale ys) ys
    xs.length = ys.length ∧ 2 ≤ xs.length ∧ lt 0 (spread sqrt dx dy) = true ∧
      r = clamp (coefficient sqrt dx dy) (-1) 1 := by
  unfold pearson pearsonScaled at h
  split at h
  · cases h
  · next hdefined =>
    push Not at hdefined
    obtain ⟨hsame, htwo, -, -⟩ := hdefined
    dsimp only at h
    split at h
    · next hspread =>
      cases h
      exact ⟨hsame, htwo, hspread, rfl⟩
    · cases h

/-- Samples that have a coefficient are finite. -/
theorem isFinite_of_pearson {r : Binary64} (h : pearson xs ys = some r) :
    (∀ x ∈ xs, x.isFinite = true) ∧ ∀ y ∈ ys, y.isFinite = true := by
  obtain ⟨hsame, -, hspread, -⟩ := pearson_eq_some h
  -- The spread has a value, so all values of the samples are finite.
  obtain ⟨hdotX, hdotY⟩ := isNaN_dot_of_spread (zero_lt_iff.mp hspread).1
  rw [hsame] at hdotY
  exact ⟨isFinite_of_isNaN_dot hdotX, isFinite_of_isNaN_dot hdotY⟩

/-- A coefficient is a number from minus one to one, however many values the samples have. -/
theorem pearson_between {r : Binary64} (h : pearson xs ys = some r) :
    le (-1) r = true ∧ le r 1 = true := by
  obtain ⟨hxs, hys⟩ := isFinite_of_pearson h
  obtain ⟨hsame, htwo, hspread, rfl⟩ := pearson_eq_some h
  obtain ⟨hnan, -, hne⟩ := zero_lt_iff.mp hspread
  refine clamp_between (isNaN_div_eq_false ?_ hnan hne) le_neg_one_one
  have hdx := (within_deviations (fun v hv => within_div_powerScale hxs hv) (by omega)).2
  have hdy := (within_deviations (fun v hv => within_div_powerScale hys hv) (by omega)).2
  rw [← hsame] at hdy
  exact (within_dot hdx hdy).isFinite

theorem isNaN_eq_false_of_pearson {r : Binary64} (h : pearson xs ys = some r) :
    r.isNaN = false :=
  (le_iff.mp (pearson_between h).1).2.1

end DramTiming.Statistics
