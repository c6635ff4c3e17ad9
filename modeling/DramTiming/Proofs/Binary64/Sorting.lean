import DramTiming.Proofs.Binary64.Order

/-!
# Sorted numbers

Sorting brings numbers into ascending order and puts what is not a number behind them, unless it has
a minus sign: such values stand in front (`sort_arranges`).  Both follow from one law, that sorting
in the total order is sorting each of two parts, where one stands below the other
(`sort_eq_append`).
-/

namespace DramTiming.Binary64

variable {x y : Binary64} {values arranged : List Binary64}

/-- Whether `x` may stand before `y` where numbers ascend, `-0` stands before `0`, and what is not a
number stands last. -/
def StandsBefore (x y : Binary64) : Prop :=
  y.isNaN = true ∨ le x y = true ∧ ¬ (x = zero false ∧ y = zero true)

instance (x y : Binary64) : Decidable (StandsBefore x y) :=
  inferInstanceAs (Decidable (_ ∨ _ ∧ ¬ _))

/-- Whether `x` is not a number and has a minus sign. -/
def isNegativeNaN (x : Binary64) : Bool := x.isNaN && x.negative

theorem isNegativeNaN_iff : x.isNegativeNaN = true ↔ x.isNaN = true ∧ x.negative = true :=
  Bool.and_eq_true_iff

theorem isNegativeNaN_of_number (h : x.isNaN = false) : x.isNegativeNaN = false := by
  rw [isNegativeNaN, h, Bool.false_and]

/-! ### Parts of the total order -/

/-- Below everything else stands what is not a number and has a minus sign. -/
theorem totalLE_of_isNegativeNaN (hx : x.isNegativeNaN = true) (hy : y.isNegativeNaN = false) :
    totalLE x y = true := by
  obtain ⟨hnan, hsign⟩ := isNegativeNaN_iff.mp hx
  have hlt := isNaN_iff.mp hnan
  rw [totalLE_iff, totalKey, if_pos hsign, totalKey]
  by_cases hysign : y.negative = true
  · have hynan : y.isNaN = false := by
      rwa [isNegativeNaN, hysign, Bool.and_true] at hy
    have hle := magnitude_le_infinityMagnitude hynan
    rw [if_pos hysign]
    omega
  · rw [if_neg hysign]
    omega

/-- Above all numbers stands what is not a number and has no minus sign. -/
theorem isNaN_of_totalLE (hnan : x.isNaN = true) (hsign : x.negative = false)
    (hle : totalLE x y = true) : y.isNaN = true := by
  have hlt := isNaN_iff.mp hnan
  rw [totalLE_iff, totalKey, if_neg (Bool.eq_false_iff.mp hsign), totalKey] at hle
  rw [isNaN_iff]
  split at hle <;> omega

/-- Without the values below everything else, the total order puts numbers first, and among them the
lower ones. -/
theorem standsBefore_of_totalLE (hx : x.isNegativeNaN = false) (hle : totalLE x y = true) :
    StandsBefore x y := by
  by_cases hy : y.isNaN = true
  · exact .inl hy
  · have hxnan : x.isNaN = false := by
      rw [Bool.eq_false_iff]
      intro hnan
      rw [isNegativeNaN, hnan, Bool.true_and] at hx
      exact hy (isNaN_of_totalLE hnan hx hle)
    have hkey := numericKey_le_of_totalLE hle
    refine .inr ⟨le_iff.mpr ⟨hxnan, Bool.eq_false_iff.mpr hy, hkey⟩, ?_⟩
    rintro ⟨rfl, rfl⟩
    exact absurd hle (by decide)

theorem not_standsBefore_of_isNaN (hx : x.isNaN = true) (hy : y.isNaN = false) :
    ¬ StandsBefore x y := by
  rintro (hnan | ⟨hle, -⟩)
  · rw [hy] at hnan
    cases hnan
  · rw [(le_iff.mp hle).1] at hx
    cases hx

/-! ### Sorted lists -/

/-- Where each value with a property stands below each without, these values are sorted apart. -/
theorem sort_eq_append (p : Binary64 → Bool) (values : List Binary64)
    (h : ∀ x y, p x = true → p y = false → totalLE x y = true) :
    sort values = sort (values.filter p) ++ sort (values.filter fun x => !p x) := by
  refine sort_eq_of_pairwise ?_ (List.pairwise_append.mpr ⟨pairwise_sort _, pairwise_sort _, ?_⟩)
  · exact ((sort_perm _).append (sort_perm _)).trans (List.filter_append_perm p values)
  · intro x hx y hy
    rw [(sort_perm _).mem_iff, List.mem_filter] at hx hy
    exact h x y hx.2 (by simpa using hy.2)

theorem sort_eq_negativeNaN_append (values : List Binary64) :
    sort values = sort (values.filter isNegativeNaN) ++
      sort (values.filter fun x => !x.isNegativeNaN) :=
  sort_eq_append isNegativeNaN values fun _ _ => totalLE_of_isNegativeNaN

theorem pairwise_standsBefore_sort (h : ∀ x ∈ values, x.isNegativeNaN = false) :
    (sort values).Pairwise StandsBefore := by
  refine (pairwise_sort values).imp_of_mem fun hx _ hle => ?_
  exact standsBefore_of_totalLE (h _ ((sort_perm values).mem_iff.mp hx)) hle

/-- A negative not-a-number value stands in front of all numbers, where none may stand. -/
theorem isNaN_of_pairwise_standsBefore (h : (sort values).Pairwise StandsBefore)
    (hx : x ∈ values) (hnegative : x.isNegativeNaN = true) (hy : y ∈ values) :
    y.isNaN = true := by
  by_contra hnumber
  rw [Bool.not_eq_true] at hnumber
  have hxfront : x ∈ sort (values.filter isNegativeNaN) := by
    rw [(sort_perm _).mem_iff, List.mem_filter]
    exact ⟨hx, hnegative⟩
  have hyrest : y ∈ sort (values.filter fun x => !x.isNegativeNaN) := by
    rw [(sort_perm _).mem_iff, List.mem_filter, isNegativeNaN_of_number hnumber]
    exact ⟨hy, rfl⟩
  rw [sort_eq_negativeNaN_append] at h
  have hbefore := (List.pairwise_append.mp h).2.2 x hxfront y hyrest
  exact not_standsBefore_of_isNaN (isNegativeNaN_iff.mp hnegative).1 hnumber hbefore

theorem pairwise_standsBefore_sort_iff :
    (sort values).Pairwise StandsBefore ↔
      (∀ x ∈ values, x.isNegativeNaN = false) ∨ ∀ x ∈ values, x.isNaN = true := by
  constructor
  · intro hsorted
    by_cases hnone : ∀ x ∈ values, x.isNegativeNaN = false
    · exact .inl hnone
    · push Not at hnone
      obtain ⟨x, hx, hnegative⟩ := hnone
      rw [Bool.ne_false_iff] at hnegative
      exact .inr fun y hy => isNaN_of_pairwise_standsBefore hsorted hx hnegative hy
  · rintro (hnone | hnan)
    · exact pairwise_standsBefore_sort hnone
    · refine (pairwise_sort values).imp_of_mem fun _ hy _ => ?_
      exact .inl (hnan _ ((sort_perm values).mem_iff.mp hy))

/-- Sorting arranges the values, and it arranges them in one way: all their arrangements are sorted
to the same list, which is the only ascending one in the total order.  Negative not-a-number values
come first; behind them numbers ascend, `-0` before `0`, and the other values that are no numbers
stand last.  So numbers come before all that is no number exactly if no such value is negative, or
there are no numbers. -/
theorem sort_arranges (values : List Binary64) :
    (sort values).Perm values ∧
    (∀ arranged, arranged.Perm values → sort arranged = sort values ∧
      (arranged.Pairwise (fun x y => totalLE x y = true) ↔ sort values = arranged)) ∧
    sort values = sort (values.filter isNegativeNaN) ++
      sort (values.filter fun x => !x.isNegativeNaN) ∧
    (sort (values.filter fun x => !x.isNegativeNaN)).Pairwise StandsBefore ∧
    ((sort values).Pairwise StandsBefore ↔
      (∀ x ∈ values, x.isNegativeNaN = false) ∨ ∀ x ∈ values, x.isNaN = true) := by
  refine ⟨sort_perm values, fun arranged hperm => ⟨sort_eq_sort hperm, ?_⟩, ?_, ?_, ?_⟩
  · constructor
    · exact sort_eq_of_pairwise hperm
    · rintro rfl
      exact pairwise_sort values
  · exact sort_eq_negativeNaN_append values
  · refine pairwise_standsBefore_sort fun x hx => ?_
    simpa using (List.mem_filter.mp hx).2
  · exact pairwise_standsBefore_sort_iff

/-- A negative not-a-number value is sorted in front of a number. -/
theorem sort_negativeNaN :
    sort [1, -nan] = [-nan, 1] ∧ ¬ (sort [1, -nan]).Pairwise StandsBefore := by
  have hsort : sort [1, -nan] = [-nan, 1] :=
    sort_eq_of_pairwise (List.Perm.swap _ _ _) (by decide +kernel)
  rw [hsort]
  exact ⟨rfl, by decide +kernel⟩

end DramTiming.Binary64
