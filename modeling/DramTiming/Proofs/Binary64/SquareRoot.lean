import DramTiming.Proofs.Binary64.Order
import Mathlib.Data.Nat.Sqrt

/-!
# Square roots

Newton's iteration stops at the whole square root (`natSqrt_eq`).  So the root of a number is within
any double whose square the number is within, and the root of a positive number is positive.
-/

namespace DramTiming.Binary64

variable {x : Binary64} {b : Nat}

theorem natSqrtFrom_eq (n guess : Nat) : natSqrtFrom n guess = Nat.sqrt.iter n guess := by
  induction guess using Nat.strong_induction_on with
  | _ guess ih =>
    rw [natSqrtFrom, Nat.sqrt.iter]
    split
    · next hnext => exact ih _ hnext
    · rfl

/-- What the iteration stops at is the whole square root. -/
theorem natSqrt_eq (n : Nat) : natSqrt n = Nat.sqrt n := by
  have hguess : 1 <<< (n.log2 / 2 + 1) = twoTo (n.log2 / 2 + 1) := Nat.one_shiftLeft _
  rw [natSqrt, Nat.sqrt, natSqrtFrom_eq, hguess]
  split
  · next hzero => simp [hzero]
  · next hne =>
    split
    · next hle =>
      obtain rfl : n = 1 := by omega
      rw [← natSqrtFrom_eq]
      decide +kernel
    · rfl

theorem natSqrt_mul_self_le (n : Nat) : natSqrt n * natSqrt n ≤ n := by
  rw [natSqrt_eq]
  exact Nat.sqrt_le n

theorem natSqrt_pos {n : Nat} (hn : 0 < n) : 0 < natSqrt n := by
  rw [natSqrt_eq]
  exact Nat.sqrt_pos.mpr hn

theorem Within.sqrt (hx : Within (b * b) x) (hsign : x.negative = false) (hb : IsWhole b) :
    Within b (sqrt x) := by
  rw [Binary64.sqrt, isNaN_eq_false hx.isFinite, Bool.false_or]
  by_cases hzero : x.isZero = true
  · rw [if_pos hzero]
    refine ⟨hx.isFinite, ?_⟩
    rw [(units_eq_zero_iff hx.isFinite).mpr (isZero_iff.mp hzero)]
    exact Nat.zero_le _
  · rw [if_neg hzero, hsign, isInfinite_eq_false hx.isFinite]
    simp only [Bool.false_eq_true, if_false]
    refine within_ofUnits hb two_pos ?_ _
    have hsquare : x.units * unitsPerOne ≤ b * unitsPerOne * (b * unitsPerOne) := by
      calc x.units * unitsPerOne ≤ b * b * unitsPerOne * unitsPerOne :=
            Nat.mul_le_mul_right _ hx.units_le
        _ = b * unitsPerOne * (b * unitsPerOne) := by ring
    have hroot := natSqrt_mul_self_le (x.units * unitsPerOne)
    split
    · have hle : natSqrt (x.units * unitsPerOne) ≤ b * unitsPerOne :=
        Nat.mul_self_le_mul_self_iff.mp (hroot.trans hsquare)
      omega
    · next hne =>
      -- A root that is not exact is below the bound.
      have hlt : natSqrt (x.units * unitsPerOne) < b * unitsPerOne :=
        Nat.mul_self_lt_mul_self_iff.mp ((Nat.lt_of_le_of_ne hroot hne).trans_le hsquare)
      omega

theorem zero_lt_sqrt (hfinite : x.isFinite = true) (hsign : x.negative = false)
    (hpos : 0 < x.units) : lt 0 (Binary64.sqrt x) = true := by
  have hzero : x.isZero = false := by
    rw [Bool.eq_false_iff, Ne, isZero_iff, ← units_eq_zero_iff hfinite]
    omega
  rw [Binary64.sqrt, isNaN_eq_false hfinite, hzero, hsign, isInfinite_eq_false hfinite]
  simp only [Bool.or_self, Bool.false_eq_true, if_false]
  have hroot := natSqrt_pos (Nat.mul_pos hpos unitsPerOne_pos)
  have hne (half : Nat) :
      (ofUnits false (2 * natSqrt (x.units * unitsPerOne) + half) 2).magnitude ≠ 0 := by
    intro hmagnitude
    have hone : IsSize 1 := ⟨1, by decide, rfl⟩
    have hunits := le_units_ofUnits hone two_pos
      (Nat.le_add_right_of_le (k := half) (Nat.mul_le_mul_left 2 hroot)) false
    rw [units, hmagnitude] at hunits
    exact absurd hunits (by decide)
  exact zero_lt_iff.mpr ⟨isNaN_ofUnits _ _ _, rfl, hne _⟩

end DramTiming.Binary64
