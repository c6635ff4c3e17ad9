import DramTiming.Proofs.Binary64.Reflection
import DramTiming.Proofs.Statistics.Definedness
import DramTiming.Statistics.StudentT

/-!
# Symmetries of correlation coefficients

Two samples have one coefficient, whichever comes first (`pearson_comm`): sums of products do not
tell the samples apart.  A sample with all signs changed has the opposite coefficient
(`mirrored_pearson`): its values have the same sizes, and so the same scale, and all rounding is
the same on both sides of zero.
-/

namespace DramTiming.Statistics

open Binary64

variable {xs xs' dx dx' : List Binary64} {r r' : Binary64}

/-! ### Exchanged samples -/

theorem dot_comm (dx dy : List Binary64) : dot dx dy = dot dy dx := by
  rw [dot, dot, List.zipWith_comm_of_comm Binary64.mul_comm]

theorem spread_comm (dx dy : List Binary64) : spread sqrt dx dy = spread sqrt dy dx := by
  rw [spread, spread, Binary64.mul_comm]

theorem coefficient_comm (dx dy : List Binary64) :
    coefficient sqrt dx dy = coefficient sqrt dy dx := by
  rw [coefficient, coefficient, dot_comm, spread_comm]

theorem pearsonScaled_comm (scaleX scaleY : Binary64) (xs ys : List Binary64) :
    pearsonScaled scaleX scaleY xs ys = pearsonScaled scaleY scaleX ys xs := by
  by_cases hsame : xs.length = ys.length
  · unfold pearsonScaled
    dsimp only
    rw [hsame, spread_comm, coefficient_comm]
    exact if_congr (or_congr_right (or_congr_right or_comm)) rfl rfl
  · rw [pearsonScaled, pearsonScaled, if_pos (.inl hsame), if_pos (.inl (Ne.symm hsame))]

/-- Samples have the same coefficient in either order. -/
theorem pearson_comm (xs ys : List Binary64) : pearson xs ys = pearson ys xs :=
  pearsonScaled_comm _ _ xs ys

/-! ### Mirrored samples -/

theorem mirrored_sum (h : List.Forall₂ Mirrored xs xs') : Mirrored (sum xs) (sum xs') :=
  List.rel_foldl (fun _ _ hsofar _ _ hx => hsofar.add hx) mirrored_zero h

theorem mirrored_deviations (h : List.Forall₂ Mirrored xs xs') (size scale : Binary64) :
    List.Forall₂ Mirrored (deviations size scale xs) (deviations size scale xs') := by
  have hscaled : List.Forall₂ Mirrored (xs.map (· / scale)) (xs'.map (· / scale)) :=
    List.rel_map (fun _ _ hx => hx.div_right scale) h
  have hmean := (mirrored_sum hscaled).div_right size
  exact List.rel_map (fun _ _ hx => hx.sub hmean) hscaled

theorem mirrored_products (h : List.Forall₂ Mirrored dx dx') (dy : List Binary64) :
    List.Forall₂ Mirrored (List.zipWith (· * ·) dx dy) (List.zipWith (· * ·) dx' dy) := by
  induction h generalizing dy with
  | nil => exact .nil
  | cons hd _ ih =>
    cases dy with
    | nil => exact .nil
    | cons d dy => exact .cons (hd.mul_right d) (ih dy)

theorem mirrored_dot (h : List.Forall₂ Mirrored dx dx') (dy : List Binary64) :
    Mirrored (dot dx dy) (dot dx' dy) :=
  mirrored_sum (mirrored_products h dy)

theorem dot_self_eq (h : List.Forall₂ Mirrored dx dx') : dot dx' dx' = dot dx dx := by
  have hsquares : dx'.map (fun d => d * d) = dx.map (fun d => d * d) := by
    induction h with
    | nil => rfl
    | cons hd _ ih => rw [List.map_cons, List.map_cons, hd.mul_self_eq, ih]
  rw [dot, dot, List.zipWith_self, List.zipWith_self, hsquares]

theorem spread_eq (h : List.Forall₂ Mirrored dx dx') (dy : List Binary64) :
    spread sqrt dx' dy = spread sqrt dx dy := by
  rw [spread, spread, dot_self_eq h]

theorem mirrored_coefficient (h : List.Forall₂ Mirrored dx dx') (dy : List Binary64) :
    Mirrored (coefficient sqrt dx dy) (coefficient sqrt dx' dy) := by
  rw [coefficient, coefficient, spread_eq h]
  exact (mirrored_dot h dy).div_right _

theorem isConstant_eq (h : List.Forall₂ Mirrored xs xs') : isConstant xs' = isConstant xs :=
  isConstant_eq_of_forall₂ (fun hx hy => hx.eq_eq hy) h

theorem largestSize_eq (h : List.Forall₂ Mirrored xs xs') : largestSize xs' = largestSize xs := by
  refine Eq.symm (List.rel_foldl (fun largest _ hlargest x x' hx => ?_) rfl h)
  rw [← hlargest]
  exact (hx.max_abs_eq largest).symm

theorem powerScale_eq (h : List.Forall₂ Mirrored xs xs') : powerScale xs' = powerScale xs := by
  rw [powerScale, powerScale, largestSize_eq h]

/-- A sample with all signs changed has a coefficient exactly if the sample has one, and it has the
other sign. -/
theorem mirrored_pearson (h : List.Forall₂ Mirrored xs xs') (ys : List Binary64) :
    Option.Rel Mirrored (pearson xs ys) (pearson xs' ys) := by
  have hdx := mirrored_deviations h (Binary64.ofNat xs.length) (powerScale xs)
  -- Scale, size, constancy and spread are the same on both sides; only the coefficient differs.
  rw [pearson, pearson, pearsonScaled, pearsonScaled, powerScale_eq h, isConstant_eq h,
    ← h.length_eq]
  split
  · exact .none
  · dsimp only
    rw [spread_eq hdx]
    split
    · exact .some ((mirrored_coefficient hdx _).clamp (mirrored_neg_self 1) (mirrored_neg 1)
        (by decide +kernel))
    · exact .none

theorem opposite_pearson (xs ys : List Binary64) :
    Option.Rel Opposite (pearson xs ys) (pearson (xs.map (-·)) ys) := by
  have hneg : List.Forall₂ Mirrored xs (xs.map (-·)) := by
    rw [List.forall₂_map_right_iff, List.forall₂_same]
    exact fun x _ => mirrored_neg x
  have hrel := mirrored_pearson hneg ys
  generalize hr : pearson xs ys = r?, pearson (xs.map (-·)) ys = r'? at hrel ⊢
  cases hrel with
  | none => exact .none
  | some h => exact .some (h.opposite (isNaN_eq_false_of_pearson hr))

/-- A coefficient is as significant as the one with the other sign. -/
theorem pValueWith?_eq (exceeds? : Binary64 → Binary64 → Option Binary64) (h : Mirrored r r')
    (n : Nat) : pValueWith? exceeds? r' n = pValueWith? exceeds? r n := by
  have hstudent (freedom : Binary64) :
      (studentOf r' freedom).abs = (studentOf r freedom).abs := by
    rw [studentOf, studentOf, h.mul_self_eq]
    exact h.abs_mul_right _
  rw [pValueWith?, pValueWith?, h.le_abs_eq, hstudent]

end DramTiming.Statistics
