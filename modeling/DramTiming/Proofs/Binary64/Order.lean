import DramTiming.Proofs.Binary64.Bounds
import Mathlib.Data.List.Sort

/-!
# Laws of the two orders

The numeric order is the order of the keys of numbers; `clamp` and `max` are read off it.  The
total order is one of all representations, so sorting has one result for all arrangements of its
values (`sort_eq_sort`).
-/

namespace DramTiming.Binary64

variable {x y lo hi : Binary64}

/-! ### Numeric order -/

theorem eq_iff :
    eq x y = true ↔ x.isNaN = false ∧ y.isNaN = false ∧ x.numericKey = y.numericKey := by
  simp [eq, and_assoc]

theorem lt_iff :
    lt x y = true ↔ x.isNaN = false ∧ y.isNaN = false ∧ x.numericKey < y.numericKey := by
  simp [lt, and_assoc]

theorem le_iff :
    le x y = true ↔ x.isNaN = false ∧ y.isNaN = false ∧ x.numericKey ≤ y.numericKey := by
  simp [le, and_assoc]

theorem lt_trans {z : Binary64} (hxy : lt x y = true) (hyz : lt y z = true) : lt x z = true := by
  obtain ⟨hx, -, hkey⟩ := lt_iff.mp hxy
  obtain ⟨-, hz, hkey'⟩ := lt_iff.mp hyz
  exact lt_iff.mpr ⟨hx, hz, hkey.trans hkey'⟩

theorem le_refl (h : x.isNaN = false) : le x x = true := le_iff.mpr ⟨h, h, le_rfl⟩

theorem not_le_iff_lt (hx : x.isNaN = false) (hy : y.isNaN = false) :
    ¬ le x y = true ↔ lt y x = true := by
  rw [le_iff, lt_iff]
  simp [hx, hy]

theorem numericKey_of_not_negative (h : x.negative = false) : x.numericKey = x.magnitude := by
  rw [numericKey, h]
  rfl

theorem numericKey_neg_of_not_negative (h : x.negative = false) :
    (-x).numericKey = -(x.magnitude : Int) := by
  show (neg x).numericKey = _
  rw [numericKey, neg, h]
  rfl

theorem natAbs_numericKey (x : Binary64) : x.numericKey.natAbs = x.magnitude := by
  unfold numericKey
  split <;> omega

theorem numericKey_zero : (0 : Binary64).numericKey = 0 := by
  rw [zero_eq]
  rfl

theorem zero_le_of_not_negative (hnan : x.isNaN = false) (hsign : x.negative = false) :
    le 0 x = true := by
  refine le_iff.mpr ⟨isNaN_zero, hnan, ?_⟩
  rw [numericKey_zero, numericKey_of_not_negative hsign]
  exact Int.natCast_nonneg _

theorem neg_le_zero_of_not_negative (hnan : x.isNaN = false) (hsign : x.negative = false) :
    le (-x) 0 = true := by
  refine le_iff.mpr ⟨hnan, isNaN_zero, ?_⟩
  rw [numericKey_zero, numericKey_neg_of_not_negative hsign]
  omega

theorem neg_le_of_not_negative (hnan : x.isNaN = false) (hsign : x.negative = false) :
    le (-x) x = true := by
  refine le_iff.mpr ⟨hnan, hnan, ?_⟩
  rw [numericKey_neg_of_not_negative hsign, numericKey_of_not_negative hsign]
  omega

theorem le_neg_one_one : le (-1) 1 = true := neg_le_of_not_negative isNaN_one rfl

theorem le_neg_one_zero : le (-1) 0 = true := neg_le_zero_of_not_negative isNaN_one rfl

theorem le_zero_one : le 0 1 = true := zero_le_of_not_negative isNaN_one rfl

/-- What is above zero is a positive number. -/
theorem zero_lt_iff : lt 0 x = true ↔ x.isNaN = false ∧ x.negative = false ∧ x.magnitude ≠ 0 := by
  rw [lt_iff, numericKey_zero, numericKey]
  simp only [isNaN_zero, true_and, and_congr_right_iff]
  intro _
  cases x.negative
  · simp only [Bool.false_eq_true, if_false, true_and]
    omega
  · simp only [if_true, reduceCtorEq, false_and, iff_false]
    omega

/-- Among numbers without a minus sign, sizes tell the order. -/
theorem le_iff_magnitude_le (hx : x.isNaN = false) (hy : y.isNaN = false)
    (hxsign : x.negative = false) (hysign : y.negative = false) :
    le x y = true ↔ x.magnitude ≤ y.magnitude := by
  rw [le_iff, numericKey_of_not_negative hxsign, numericKey_of_not_negative hysign]
  simp [hx, hy]

theorem one_le_iff : le 1 x = true ↔
    x.isNaN = false ∧ x.negative = false ∧ (1 : Binary64).magnitude ≤ x.magnitude := by
  obtain ⟨hone, -, -⟩ := one_spec
  have hne := magnitude_one_ne_zero
  rw [le_iff, numericKey_of_not_negative hone, numericKey]
  simp only [isNaN_one, true_and, and_congr_right_iff]
  intro _
  cases x.negative
  · simp only [Bool.false_eq_true, if_false, true_and, Int.ofNat_le]
  · simp only [if_true, reduceCtorEq, false_and, iff_false]
    omega

/-- Among finite numbers, units tell the order. -/
theorem signedUnits_le_signedUnits_iff (hx : x.isFinite = true) (hy : y.isFinite = true) :
    x.signedUnits ≤ y.signedUnits ↔ x.numericKey ≤ y.numericKey := by
  have hxy := units_le_units_iff hx hy
  have hyx := units_le_units_iff hy hx
  have hxzero := units_eq_zero_iff hx
  have hyzero := units_eq_zero_iff hy
  unfold signedUnits numericKey
  cases x.negative <;> cases y.negative <;> simp only [if_true, Bool.false_eq_true, if_false] <;>
    omega

/-- What is clamped between two numbers lies between them. -/
theorem clamp_between (hx : x.isNaN = false) (hle : le lo hi = true) :
    le lo (clamp x lo hi) = true ∧ le (clamp x lo hi) hi = true := by
  obtain ⟨hlo, hhi, hkeys⟩ := le_iff.mp hle
  unfold clamp
  split
  · exact ⟨le_refl hlo, hle⟩
  · next hge =>
    split
    · exact ⟨hle, le_refl hhi⟩
    · next hge' =>
      rw [lt_iff] at hge hge'
      exact ⟨le_iff.mpr ⟨hlo, hx, by simp_all⟩, le_iff.mpr ⟨hx, hhi, by simp_all⟩⟩

/-- The larger of a number that is not negative and the size of another one. -/
theorem max_abs_spec (hx : x.isNaN = false) (hsign : x.negative = false) (y : Binary64) :
    (Binary64.max x y.abs).isNaN = false ∧ (Binary64.max x y.abs).negative = false ∧
      x.magnitude ≤ (Binary64.max x y.abs).magnitude ∧
      (y.isNaN = false → y.magnitude ≤ (Binary64.max x y.abs).magnitude) ∧
      (Binary64.max x y.abs = x ∨ y.isNaN = false ∧ Binary64.max x y.abs = y.abs) := by
  have hnan : y.abs.isNaN = y.isNaN := rfl
  have hmagnitude : y.abs.magnitude = y.magnitude := rfl
  have hkey : y.abs.numericKey = y.magnitude := numericKey_of_not_negative rfl
  unfold Binary64.max
  split
  · next h =>
    refine ⟨hx, hsign, le_rfl, fun hy => ?_, .inl rfl⟩
    rw [hnan, hy, Bool.false_or, lt_iff, hkey, numericKey_of_not_negative hsign] at h
    omega
  · next h =>
    rw [hnan, Bool.or_eq_true, not_or, lt_iff, hkey, numericKey_of_not_negative hsign] at h
    have hy : y.isNaN = false := Bool.eq_false_iff.mpr h.1
    rw [hx, if_neg Bool.false_ne_true]
    refine ⟨hy, rfl, ?_, fun _ => le_rfl, .inr ⟨hy, rfl⟩⟩
    rw [hmagnitude]
    simp only [hnan, hy, hx, true_and, not_lt] at h
    omega

/-! ### Total order -/

theorem totalKey_injective : Function.Injective totalKey := by
  rintro ⟨negative, magnitude, _⟩ ⟨negative', magnitude', _⟩ h
  unfold totalKey at h
  cases negative <;> cases negative' <;> simp only [if_true, Bool.false_eq_true, if_false] at h
  · obtain rfl : magnitude = magnitude' := by omega
    rfl
  · omega
  · omega
  · obtain rfl : magnitude = magnitude' := by omega
    rfl

theorem totalLE_iff : totalLE x y = true ↔ x.totalKey ≤ y.totalKey := decide_eq_true_iff

/-- The total order refines the numeric one. -/
theorem numericKey_le_of_totalLE (h : totalLE x y = true) : x.numericKey ≤ y.numericKey := by
  obtain ⟨negative, magnitude, _⟩ := x
  obtain ⟨negative', magnitude', _⟩ := y
  rw [totalLE_iff] at h
  unfold totalKey at h
  unfold numericKey
  cases negative <;> cases negative' <;> simp only [if_true, Bool.false_eq_true, if_false] at h ⊢ <;>
    omega

theorem lt_of_totalLE_of_ne (hx : x.isNaN = false) (hy : y.isNaN = false)
    (hle : totalLE x y = true) (hne : ¬ eq y x = true) : lt x y = true := by
  have hkey := numericKey_le_of_totalLE hle
  rw [eq_iff] at hne
  refine lt_iff.mpr ⟨hx, hy, lt_of_le_of_ne hkey fun heq => hne ⟨hy, hx, heq.symm⟩⟩

/-- Of what is equal to zero, the zero with a minus sign stands first. -/
theorem eq_zero_of_totalLE (hkey : x.numericKey = 0) (hle : totalLE x (zero true) = true) :
    x = zero true := by
  have hmagnitude : x.magnitude = 0 := by
    rw [← natAbs_numericKey, hkey]
    rfl
  refine totalKey_injective (Int.le_antisymm (totalLE_iff.mp hle) ?_)
  show -1 ≤ x.totalKey
  unfold totalKey
  split <;> omega

theorem pairwise_sort (values : List Binary64) :
    (sort values).Pairwise fun x y => totalLE x y = true := by
  refine List.pairwise_mergeSort (fun x y z hxy hyz => ?_) (fun x y => ?_) values
  · exact totalLE_iff.mpr ((totalLE_iff.mp hxy).trans (totalLE_iff.mp hyz))
  · rw [Bool.or_eq_true, totalLE_iff, totalLE_iff]
    exact Int.le_total _ _

theorem sort_perm (values : List Binary64) : (sort values).Perm values :=
  List.mergeSort_perm values totalLE

/-- All arrangements of the same values are sorted to the same list. -/
theorem sort_eq_sort {values values' : List Binary64} (h : values.Perm values') :
    sort values = sort values' := by
  have hperm : (sort values).Perm (sort values') :=
    (sort_perm values).trans (h.trans (sort_perm values').symm)
  refine hperm.eq_of_pairwise (fun x y _ _ hxy hyx => ?_) (pairwise_sort _) (pairwise_sort _)
  exact totalKey_injective (Int.le_antisymm (totalLE_iff.mp hxy) (totalLE_iff.mp hyx))

/-- The values have only one arrangement that ascends. -/
theorem sort_eq_of_pairwise {values arranged : List Binary64} (hperm : arranged.Perm values)
    (hsorted : arranged.Pairwise fun x y => totalLE x y = true) : sort values = arranged := by
  rw [← sort_eq_sort hperm, sort, List.mergeSort_of_pairwise hsorted]

end DramTiming.Binary64
