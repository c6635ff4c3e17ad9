import DramTiming.Chart.SymLog
import Mathlib.Analysis.SpecialFunctions.Log.Base
import Mathlib.Order.Monotone.Odd
import Mathlib.Order.Monotone.Union

/-!
# The scale of exact numbers

On the real numbers the scale of a chart is an odd, strictly increasing bijection, and the label of
a place names the value that has this place (`SymLog.forward_inverse_spec`).  Both of its functions
are odd, so what holds of them is shown for numbers that are not negative; there the linear and the
logarithmic piece meet at the threshold.
-/

namespace DramTiming

/-- The real numbers, with logarithms that are not rounded. -/
noncomputable instance : DecimalLog ℝ where
  abs x := |x|
  sign x := if x < 0 then -1 else 1
  atMost x y := decide (x ≤ y)
  log10 := Real.logb 10
  tenPow x := 10 ^ x

namespace SymLog

variable {s : SymLog ℝ} {v place : ℝ}

/-! ### The two pieces -/

theorem forward_of_le (h : |v| ≤ s.threshold) : s.forward v = v / s.threshold :=
  if_pos (decide_eq_true h)

theorem forward_of_lt (h : s.threshold < |v|) :
    s.forward v = (if v < 0 then -1 else 1) * (1 + Real.logb 10 (|v| / s.threshold)) :=
  if_neg fun hle => h.not_ge (of_decide_eq_true hle)

theorem inverse_of_le (h : |place| ≤ 1) : s.inverse place = place * s.threshold :=
  if_pos (decide_eq_true h)

theorem inverse_of_lt (h : 1 < |place|) :
    s.inverse place = (if place < 0 then -1 else 1) * s.threshold * 10 ^ (|place| - 1) :=
  if_neg fun hle => h.not_ge (of_decide_eq_true hle)

/-- The logarithmic piece begins at the threshold, where the linear one ends. -/
theorem forward_of_ge (hpos : 0 < s.threshold) (h : s.threshold ≤ v) :
    s.forward v = 1 + Real.logb 10 (v / s.threshold) := by
  have hv : 0 < v := hpos.trans_le h
  rcases h.lt_or_eq with hlt | rfl
  · rw [← abs_of_pos hv] at hlt
    rw [forward_of_lt hlt, if_neg hv.not_gt, one_mul, abs_of_pos hv]
  · rw [forward_of_le (abs_of_pos hv).le, div_self hv.ne', Real.logb_one, add_zero]

theorem inverse_of_one_lt (h : 1 < place) :
    s.inverse place = s.threshold * 10 ^ (place - 1) := by
  have hplace : 0 < place := one_pos.trans h
  have habs : 1 < |place| := by rwa [abs_of_pos hplace]
  rw [inverse_of_lt habs, if_neg hplace.not_gt, one_mul, abs_of_pos hplace]

/-! ### Both are odd -/

/-- The sign of a number that is not zero changes with the number. -/
theorem sign_neg_of_ne_zero (h : v ≠ 0) :
    (if -v < 0 then -1 else 1 : ℝ) = -(if v < 0 then -1 else 1) := by
  rcases h.lt_or_gt with hneg | hpos
  · rw [if_pos hneg, if_neg (by linarith), neg_neg]
  · rw [if_neg hpos.not_gt, if_pos (by linarith)]

theorem forward_neg (hpos : 0 < s.threshold) (v : ℝ) : s.forward (-v) = -s.forward v := by
  rcases le_or_gt |v| s.threshold with hle | hlt
  · have hle' : |-v| ≤ s.threshold := by rwa [abs_neg]
    rw [forward_of_le hle, forward_of_le hle', neg_div]
  · have hlt' : s.threshold < |-v| := by rwa [abs_neg]
    have hne : v ≠ 0 := abs_pos.mp (hpos.trans hlt)
    rw [forward_of_lt hlt, forward_of_lt hlt', abs_neg, sign_neg_of_ne_zero hne, neg_mul]

theorem inverse_neg (place : ℝ) : s.inverse (-place) = -s.inverse place := by
  rcases le_or_gt |place| 1 with hle | hlt
  · have hle' : |-place| ≤ 1 := by rwa [abs_neg]
    rw [inverse_of_le hle, inverse_of_le hle', neg_mul]
  · have hlt' : 1 < |-place| := by rwa [abs_neg]
    have hne : place ≠ 0 := abs_pos.mp (one_pos.trans hlt)
    rw [inverse_of_lt hlt, inverse_of_lt hlt', abs_neg, sign_neg_of_ne_zero hne, neg_mul, neg_mul]

/-- An odd function that leaves all numbers from zero on as they are leaves every number as it is.
-/
theorem eq_self_of_odd {f : ℝ → ℝ} (hodd : ∀ x, f (-x) = -f x) (h : ∀ x, 0 ≤ x → f x = x) (x : ℝ) :
    f x = x := by
  rcases le_total 0 x with hx | hx
  · exact h x hx
  · have hneg := h (-x) (neg_nonneg.mpr hx)
    rw [hodd] at hneg
    exact neg_injective hneg

/-! ### Values and places -/

theorem inverse_forward (hpos : 0 < s.threshold) (v : ℝ) : s.inverse (s.forward v) = v := by
  have hodd (v : ℝ) : s.inverse (s.forward (-v)) = -s.inverse (s.forward v) := by
    rw [forward_neg hpos, inverse_neg]
  apply eq_self_of_odd (f := fun v => s.inverse (s.forward v)) hodd
  intro v hv
  show s.inverse (s.forward v) = v
  rcases le_or_gt v s.threshold with hle | hlt
  · have habs : |v| ≤ s.threshold := by rwa [abs_of_nonneg hv]
    have hplace : |v / s.threshold| ≤ 1 := by
      rwa [abs_div, abs_of_pos hpos, div_le_one hpos]
    rw [forward_of_le habs, inverse_of_le hplace, div_mul_cancel₀ v hpos.ne']
  · have hratio : 1 < v / s.threshold := (one_lt_div hpos).mpr hlt
    have hlog : 0 < Real.logb 10 (v / s.threshold) := Real.logb_pos (by norm_num) hratio
    rw [forward_of_ge hpos hlt.le, inverse_of_one_lt (by linarith), add_sub_cancel_left,
      Real.rpow_logb (by norm_num) (by norm_num) (one_pos.trans hratio),
      mul_div_cancel₀ v hpos.ne']

theorem forward_inverse (hpos : 0 < s.threshold) (place : ℝ) :
    s.forward (s.inverse place) = place := by
  have hodd (place : ℝ) : s.forward (s.inverse (-place)) = -s.forward (s.inverse place) := by
    rw [inverse_neg, forward_neg hpos]
  apply eq_self_of_odd (f := fun place => s.forward (s.inverse place)) hodd
  intro place hplace
  show s.forward (s.inverse place) = place
  rcases le_or_gt place 1 with hle | hlt
  · have habs : |place| ≤ 1 := by rwa [abs_of_nonneg hplace]
    have hvalue : |place * s.threshold| ≤ s.threshold := by
      rw [abs_mul, abs_of_pos hpos]
      exact mul_le_of_le_one_left hpos.le habs
    rw [inverse_of_le habs, forward_of_le hvalue, mul_div_cancel_right₀ place hpos.ne']
  · have hpower : (1 : ℝ) ≤ 10 ^ (place - 1) := Real.one_le_rpow (by norm_num) (by linarith)
    have hvalue : s.threshold ≤ s.threshold * 10 ^ (place - 1) :=
      le_mul_of_one_le_right hpos.le hpower
    rw [inverse_of_one_lt hlt, forward_of_ge hpos hvalue, mul_div_cancel_left₀ _ hpos.ne',
      Real.logb_rpow (by norm_num) (by norm_num), add_sub_cancel]

theorem abs_forward_le_one_iff (hpos : 0 < s.threshold) (v : ℝ) :
    |v| ≤ s.threshold ↔ |s.forward v| ≤ 1 := by
  constructor
  · intro h
    rw [forward_of_le h, abs_div, abs_of_pos hpos]
    exact (div_le_one hpos).mpr h
  · intro h
    -- The value is the one of its place.
    rw [← inverse_forward hpos v, inverse_of_le h, abs_mul, abs_of_pos hpos]
    exact mul_le_of_le_one_left hpos.le h

/-! ### Order -/

theorem strictMono_forward (hpos : 0 < s.threshold) : StrictMono s.forward := by
  apply strictMono_of_odd_strictMonoOn_nonneg (forward_neg hpos)
  have hlinear : StrictMonoOn s.forward (Set.Icc 0 s.threshold) := by
    intro v hv w hw hlt
    have habs {x : ℝ} (hx : x ∈ Set.Icc 0 s.threshold) : |x| ≤ s.threshold := by
      rw [abs_of_nonneg hx.1]
      exact hx.2
    rw [forward_of_le (habs hv), forward_of_le (habs hw)]
    exact div_lt_div_of_pos_right hlt hpos
  have hlogarithmic : StrictMonoOn s.forward (Set.Ici s.threshold) := by
    intro v hv w hw hlt
    rw [forward_of_ge hpos hv, forward_of_ge hpos hw]
    have hratio : 0 < v / s.threshold := div_pos (hpos.trans_le hv) hpos
    have hlog := Real.logb_lt_logb (b := 10) (by norm_num) hratio
      (div_lt_div_of_pos_right hlt hpos)
    linarith
  rw [← Set.Icc_union_Ici_eq_Ici hpos.le]
  exact hlinear.union hlogarithmic (isGreatest_Icc hpos.le) isLeast_Ici

theorem strictMono_inverse (hpos : 0 < s.threshold) : StrictMono s.inverse := by
  intro place place' hlt
  rw [← (strictMono_forward hpos).lt_iff_lt, forward_inverse hpos, forward_inverse hpos]
  exact hlt

/-- Computed without rounding, the place of a value on the scale and the value at a place are odd
and strictly increasing in each other, and each is undone by the other.  So both are bijections, and
a value has a place exactly if it is the value at this place.  What is at most the threshold lies
between minus one and one, and nothing else does. -/
theorem forward_inverse_spec (hpos : 0 < s.threshold) :
    (∀ v, s.forward (-v) = -s.forward v) ∧ (∀ place, s.inverse (-place) = -s.inverse place) ∧
    StrictMono s.forward ∧ StrictMono s.inverse ∧
    Function.Bijective s.forward ∧ Function.Bijective s.inverse ∧
    (∀ v, s.inverse (s.forward v) = v) ∧ (∀ place, s.forward (s.inverse place) = place) ∧
    (∀ v place, s.forward v = place ↔ s.inverse place = v) ∧
    ∀ v, |v| ≤ s.threshold ↔ |s.forward v| ≤ 1 := by
  have hforward := strictMono_forward hpos
  have hinverse := strictMono_inverse hpos
  refine ⟨forward_neg hpos, inverse_neg, hforward, hinverse, ?_, ?_, inverse_forward hpos,
    forward_inverse hpos, ?_, abs_forward_le_one_iff hpos⟩
  · exact ⟨hforward.injective, fun place => ⟨s.inverse place, forward_inverse hpos place⟩⟩
  · exact ⟨hinverse.injective, fun v => ⟨s.forward v, inverse_forward hpos v⟩⟩
  · intro v place
    constructor
    · rintro rfl
      exact inverse_forward hpos v
    · rintro rfl
      exact forward_inverse hpos place

/-- With a threshold of a hundredth, a hundred is five steps from zero: one to the threshold and
four decades beyond it.  So the tick at five is labelled with a hundred. -/
theorem forward_inverse_spec_hundredth :
    let s : SymLog ℝ := ⟨1 / 100⟩
    0 < s.threshold ∧ s.forward 100 = 5 ∧ s.inverse 5 = 100 ∧ s.forward (-100) = -5 ∧
      ¬ |s.forward 100| ≤ 1 ∧ s.inverse (s.forward (1 / 200)) = 1 / 200 := by
  intro s
  have hpos : 0 < s.threshold := by norm_num [s]
  obtain ⟨hodd, -, -, -, -, -, hundo, -, hplace, hband⟩ := forward_inverse_spec hpos
  have hfive : s.forward 100 = 5 := by
    have hle : s.threshold ≤ 100 := by norm_num [s]
    have hratio : (100 : ℝ) / s.threshold = 10 ^ (4 : ℝ) := by norm_num [s]
    rw [forward_of_ge hpos hle, hratio, Real.logb_rpow (by norm_num) (by norm_num)]
    norm_num
  refine ⟨hpos, hfive, (hplace 100 5).mp hfive, ?_, ?_, hundo (1 / 200)⟩
  · rw [hodd, hfive]
  · rw [← hband]
    norm_num [s]

end SymLog

end DramTiming
