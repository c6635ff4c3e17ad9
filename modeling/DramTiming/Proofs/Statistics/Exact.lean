import DramTiming.Statistics.Pearson
import Mathlib.Analysis.InnerProductSpace.PiL2

/-!
# The coefficient of exact samples

Computed without rounding, the coefficient of two samples is the one of the textbooks
(`coefficient_deviations`): the scales cancel out.  It is the cosine of the angle between the two
vectors of deviations, so it lies between minus one and one, and it reaches these bounds exactly for
vectors of the same or of opposite direction, which are those of samples that depend on each other
by an affine function.
-/

namespace DramTiming.Statistics

variable {n : Nat} {k l : ℝ} {xs ys dx dy : List ℝ}

/-! ### The formula -/

/-- The mean of a sample. -/
noncomputable def mean (values : List ℝ) : ℝ := values.sum / values.length

/-- The deviations of a sample from its mean. -/
noncomputable def centered (values : List ℝ) : List ℝ := values.map (· - mean values)

/-- The correlation coefficient of two samples by its definition. -/
noncomputable def correlation (xs ys : List ℝ) : ℝ :=
  (List.zipWith (fun x y => (x - mean xs) * (y - mean ys)) xs ys).sum /
    √((xs.map fun x => (x - mean xs) ^ 2).sum * (ys.map fun y => (y - mean ys) ^ 2).sum)

/-- Two values of a sample differ. -/
def Varies (values : List ℝ) : Prop := ∃ x ∈ values, ∃ y ∈ values, x ≠ y

theorem sum_eq (values : List ℝ) : sum values = values.sum := List.sum_eq_foldl.symm

theorem correlation_eq (xs ys : List ℝ) :
    correlation xs ys = coefficient Real.sqrt (centered xs) (centered ys) := by
  have hproducts :
      (List.zipWith (fun x y => (x - mean xs) * (y - mean ys)) xs ys).sum =
        dot (centered xs) (centered ys) := by
    rw [dot, sum_eq, centered, centered, List.zipWith_map]
  have hsquares (values : List ℝ) :
      (values.map fun x => (x - mean values) ^ 2).sum = dot (centered values) (centered values) := by
    rw [dot, sum_eq, List.zipWith_self, centered, List.map_map]
    simp only [pow_two, Function.comp_def]
  rw [correlation, coefficient, spread, hsquares, hsquares, hproducts]

/-! ### Scales -/

theorem sum_map_div (values : List ℝ) (k : ℝ) : (values.map (· / k)).sum = values.sum / k := by
  simp only [div_eq_mul_inv, List.sum_map_mul_right, List.map_id']

theorem deviations_eq (values : List ℝ) (k : ℝ) :
    deviations (values.length : ℝ) k values = (centered values).map (· / k) := by
  unfold deviations
  dsimp only
  rw [sum_eq, sum_map_div, centered, List.map_map, List.map_map]
  refine List.map_congr_left fun x _ => ?_
  show x / k - values.sum / k / values.length = (x - mean values) / k
  rw [mean, sub_div, div_right_comm]

theorem dot_map_div (dx dy : List ℝ) (k l : ℝ) :
    dot (dx.map (· / k)) (dy.map (· / l)) = dot dx dy / (k * l) := by
  rw [dot, dot, sum_eq, sum_eq, List.zipWith_map, ← sum_map_div, List.map_zipWith]
  simp only [div_mul_div_comm]

theorem spread_map_div (hk : 0 < k) (hl : 0 < l) (dx dy : List ℝ) :
    spread Real.sqrt (dx.map (· / k)) (dy.map (· / l)) = spread Real.sqrt dx dy / (k * l) := by
  have hproduct : dot dx dx / (k * k) * (dot dy dy / (l * l)) =
      dot dx dx * dot dy dy / (k * l) ^ 2 := by
    rw [div_mul_div_comm]
    congr 1
    ring
  rw [spread, spread, dot_map_div, dot_map_div, hproduct, Real.sqrt_div' _ (sq_nonneg _),
    Real.sqrt_sq (mul_pos hk hl).le]

/-- The scales of two samples cancel out. -/
theorem coefficient_map_div (hk : 0 < k) (hl : 0 < l) (dx dy : List ℝ) :
    coefficient Real.sqrt (dx.map (· / k)) (dy.map (· / l)) = coefficient Real.sqrt dx dy := by
  rw [coefficient, coefficient, dot_map_div, spread_map_div hk hl,
    div_div_div_cancel_right₀ (mul_pos hk hl).ne']

/-! ### Vectors of deviations -/

theorem dot_ofFn (u v : EuclideanSpace ℝ (Fin n)) :
    dot (List.ofFn u) (List.ofFn v) = inner ℝ u v := by
  have hproducts : List.zipWith (· * ·) (List.ofFn u) (List.ofFn v) =
      List.ofFn fun i => u i * v i := by
    apply List.ext_getElem <;> simp
  rw [dot, sum_eq, hproducts, List.sum_ofFn, PiLp.inner_apply]
  simp only [RCLike.inner_apply, conj_trivial, mul_comm]

theorem spread_ofFn (u v : EuclideanSpace ℝ (Fin n)) :
    spread Real.sqrt (List.ofFn u) (List.ofFn v) = ‖u‖ * ‖v‖ := by
  rw [spread, dot_ofFn, dot_ofFn, real_inner_self_eq_norm_mul_norm,
    real_inner_self_eq_norm_mul_norm, mul_mul_mul_comm]
  exact Real.sqrt_mul_self (by positivity)

theorem coefficient_ofFn (u v : EuclideanSpace ℝ (Fin n)) :
    coefficient Real.sqrt (List.ofFn u) (List.ofFn v) = inner ℝ u v / (‖u‖ * ‖v‖) := by
  rw [coefficient, dot_ofFn, spread_ofFn]

/-- Lists of one length are those of the components of two vectors. -/
theorem exists_eq_ofFn (h : dx.length = dy.length) :
    ∃ (n : Nat) (u v : EuclideanSpace ℝ (Fin n)), dx = List.ofFn u ∧ dy = List.ofFn v := by
  refine ⟨dy.length, WithLp.toLp 2 fun i => dx.get (i.cast h.symm), WithLp.toLp 2 dy.get, ?_, ?_⟩
  · apply List.ext_getElem <;> simp [h]
  · exact (List.ofFn_get dy).symm

theorem abs_coefficient_le_one (h : dx.length = dy.length) :
    |coefficient Real.sqrt dx dy| ≤ 1 := by
  obtain ⟨n, u, v, rfl, rfl⟩ := exists_eq_ofFn h
  rw [coefficient_ofFn]
  exact abs_real_inner_div_norm_mul_norm_le_one u v

theorem ofFn_eq_map_iff (u v : EuclideanSpace ℝ (Fin n)) (r : ℝ) :
    List.ofFn v = (List.ofFn u).map (r * ·) ↔ v = r • u := by
  rw [List.map_ofFn, List.ofFn_inj]
  constructor
  · intro h
    ext i
    simp [h]
  · rintro rfl
    rfl

theorem exists_ne_zero_iff (u : EuclideanSpace ℝ (Fin n)) :
    (∃ d ∈ List.ofFn u, d ≠ 0) ↔ u ≠ 0 := by
  rw [Ne, PiLp.ext_iff]
  simp

/-- The spread vanishes only with all the deviations of one sample. -/
theorem spread_pos (h : dx.length = dy.length) (hdx : ∃ d ∈ dx, d ≠ 0) (hdy : ∃ d ∈ dy, d ≠ 0) :
    0 < spread Real.sqrt dx dy := by
  obtain ⟨n, u, v, rfl, rfl⟩ := exists_eq_ofFn h
  rw [exists_ne_zero_iff] at hdx hdy
  rw [spread_ofFn]
  exact mul_pos (norm_pos_iff.mpr hdx) (norm_pos_iff.mpr hdy)

/-- The coefficient is one if the deviations of both samples have the same proportions. -/
theorem coefficient_eq_one_iff (h : dx.length = dy.length) (hdx : ∃ d ∈ dx, d ≠ 0) :
    coefficient Real.sqrt dx dy = 1 ↔ ∃ r, 0 < r ∧ dy = dx.map (r * ·) := by
  obtain ⟨n, u, v, rfl, rfl⟩ := exists_eq_ofFn h
  rw [exists_ne_zero_iff] at hdx
  rw [coefficient_ofFn, real_inner_div_norm_mul_norm_eq_one_iff]
  simp only [ofFn_eq_map_iff, hdx, ne_eq, not_false_eq_true, true_and]

theorem coefficient_eq_neg_one_iff (h : dx.length = dy.length) (hdx : ∃ d ∈ dx, d ≠ 0) :
    coefficient Real.sqrt dx dy = -1 ↔ ∃ r, r < 0 ∧ dy = dx.map (r * ·) := by
  obtain ⟨n, u, v, rfl, rfl⟩ := exists_eq_ofFn h
  rw [exists_ne_zero_iff] at hdx
  rw [coefficient_ofFn, real_inner_div_norm_mul_norm_eq_neg_one_iff]
  simp only [ofFn_eq_map_iff, hdx, ne_eq, not_false_eq_true, true_and]

/-! ### Affine functions -/

theorem length_centered (values : List ℝ) : (centered values).length = values.length :=
  List.length_map _

theorem cast_length_ne_zero_of_varies (h : Varies xs) : (xs.length : ℝ) ≠ 0 := by
  obtain ⟨x, hx, -⟩ := h
  exact Nat.cast_ne_zero.mpr (List.length_pos_of_mem hx).ne'

/-- Of two values that differ, one deviates from the mean. -/
theorem exists_ne_zero_of_varies (h : Varies xs) : ∃ d ∈ centered xs, d ≠ 0 := by
  obtain ⟨x, hx, y, hy, hne⟩ := h
  by_cases hmean : x = mean xs
  · exact ⟨_, List.mem_map_of_mem hy, sub_ne_zero.mpr fun heq => hne (hmean.trans heq.symm)⟩
  · exact ⟨_, List.mem_map_of_mem hx, sub_ne_zero.mpr hmean⟩

theorem mean_map_affine (hne : (xs.length : ℝ) ≠ 0) (a b : ℝ) :
    mean (xs.map fun x => a * x + b) = a * mean xs + b := by
  rw [mean, mean, List.length_map, List.sum_map_add, List.sum_map_mul_left, List.map_const',
    List.sum_replicate, List.map_id', nsmul_eq_mul]
  field_simp

theorem map_add_mean_centered (values : List ℝ) :
    (centered values).map (· + mean values) = values := by
  rw [centered, List.map_map]
  conv_rhs => rw [← List.map_id values]
  refine List.map_congr_left fun x _ => ?_
  exact sub_add_cancel x _

/-- Deviations have the same proportions if the samples depend on each other by an affine
function. -/
theorem centered_eq_map_iff (hne : (xs.length : ℝ) ≠ 0) (r : ℝ) :
    centered ys = (centered xs).map (r * ·) ↔ ∃ b, ys = xs.map fun x => r * x + b := by
  constructor
  · intro h
    refine ⟨mean ys - r * mean xs, ?_⟩
    calc ys = (centered ys).map (· + mean ys) := (map_add_mean_centered ys).symm
      _ = xs.map fun x => r * x + (mean ys - r * mean xs) := by
          rw [h, centered, List.map_map, List.map_map]
          refine List.map_congr_left fun x _ => ?_
          show r * (x - mean xs) + mean ys = r * x + (mean ys - r * mean xs)
          ring
  · rintro ⟨b, rfl⟩
    rw [centered, mean_map_affine hne, centered, List.map_map, List.map_map]
    refine List.map_congr_left fun x _ => ?_
    show r * x + b - (r * mean xs + b) = r * (x - mean xs)
    ring

/-! ### Coefficients -/

/-- Computed without rounding, with any positive scales, two samples that vary have the coefficient
of the definition.  It needs no clamping, and it is one or minus one exactly if one sample is an
increasing or a decreasing affine function of the other. -/
theorem coefficient_deviations (hsame : xs.length = ys.length) (hxs : Varies xs) (hys : Varies ys)
    (hk : 0 < k) (hl : 0 < l) :
    let dx := deviations (xs.length : ℝ) k xs
    let dy := deviations (xs.length : ℝ) l ys
    let r := coefficient Real.sqrt dx dy
    0 < spread Real.sqrt dx dy ∧ r = correlation xs ys ∧ -1 ≤ r ∧ r ≤ 1 ∧ max (-1) (min r 1) = r ∧
      (r = 1 ↔ ∃ a b, 0 < a ∧ ys = xs.map fun x => a * x + b) ∧
      (r = -1 ↔ ∃ a b, a < 0 ∧ ys = xs.map fun x => a * x + b) := by
  have hlength : (centered xs).length = (centered ys).length := by
    rw [length_centered, length_centered, hsame]
  have hdx := exists_ne_zero_of_varies hxs
  have hdy := exists_ne_zero_of_varies hys
  have hne := cast_length_ne_zero_of_varies hxs
  have hbound := abs_le.mp (abs_coefficient_le_one hlength)
  dsimp only
  rw [deviations_eq, hsame, deviations_eq, spread_map_div hk hl, coefficient_map_div hk hl,
    coefficient_eq_one_iff hlength hdx, coefficient_eq_neg_one_iff hlength hdx, correlation_eq,
    min_eq_left hbound.2, max_eq_right hbound.1]
  have hspread := div_pos (spread_pos hlength hdx hdy) (mul_pos hk hl)
  simp only [centered_eq_map_iff hne, exists_and_left, and_self, hbound, hspread]

/-- A sample whose coefficient is the root of `0.6`, and one that grows linearly. -/
theorem coefficient_deviations_sample :
    coefficient Real.sqrt (deviations (5 : ℝ) 4 [1, 2, 3, 4, 5])
        (deviations (5 : ℝ) 4 [2, 4, 5, 4, 5]) = 6 / √60 ∧
      coefficient Real.sqrt (deviations (5 : ℝ) 4 [1, 2, 3, 4, 5])
        (deviations (5 : ℝ) 8 [3, 5, 7, 9, 11]) = 1 := by
  have hvaries {x y : ℝ} (rest : List ℝ) (hne : x ≠ y) : Varies (x :: y :: rest) :=
    ⟨x, by simp, y, by simp, hne⟩
  have hxs : Varies [1, 2, 3, 4, 5] := hvaries _ (by norm_num)
  have hys : Varies [2, 4, 5, 4, 5] := hvaries _ (by norm_num)
  have hline : Varies [3, 5, 7, 9, 11] := hvaries _ (by norm_num)
  have hsize : (([1, 2, 3, 4, 5] : List ℝ).length : ℝ) = 5 := by norm_num
  have hsame {a b c d e a' b' c' d' e' : ℝ} : [a, b, c, d, e].length = [a', b', c', d', e'].length :=
    rfl
  constructor
  · obtain ⟨-, hcorrelation, -⟩ :=
      coefficient_deviations (k := 4) (l := 4) hsame hxs hys (by norm_num) (by norm_num)
    rw [hsize] at hcorrelation
    rw [hcorrelation]
    norm_num [correlation, mean]
  · obtain ⟨-, -, -, -, -, hone, -⟩ :=
      coefficient_deviations (k := 4) (l := 8) hsame hxs hline (by norm_num) (by norm_num)
    rw [hsize] at hone
    exact hone.mpr ⟨2, 1, by norm_num, by norm_num⟩

end DramTiming.Statistics
