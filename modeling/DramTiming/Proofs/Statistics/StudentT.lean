import DramTiming.Proofs.Statistics.Significance

/-!
# Student's distribution has a value

The argument at which Student's distribution asks the incomplete beta function for its value is
a quotient of a positive number and one that is at least as large, so it lies between zero and one.
-/

namespace DramTiming.Statistics

open Binary64

variable {freedom t r x y : Binary64} {n : Nat}

/-- A sum of two numbers that are not negative is at least as large as the first. -/
theorem add_spec (hx : x.isFinite = true) (hxsign : x.negative = false) (hpos : 0 < x.units)
    (hy : y.isNaN = false) (hysign : y.negative = false) :
    (x + y).isNaN = false ∧ (x + y).negative = false ∧
      ((x + y).isFinite = true → x.units ≤ (x + y).units) := by
  by_cases hinf : y.isInfinite = true
  · have hsum : x + y = y := by
      show add x y = y
      simp [add, isNaN_eq_false hx, hy, isInfinite_eq_false hx, hinf]
    rw [hsum]
    exact ⟨hy, hysign, fun h => absurd h (not_isFinite_of_isInfinite hinf)⟩
  · have hfinite := isFinite_of_not_isNaN_of_not_isInfinite hy hinf
    have hsum : x + y = ofUnits false (x.units + y.units) 1 := by
      rw [add_of_isFinite hx hfinite, signedUnits_of_not_negative hxsign,
        signedUnits_of_not_negative hysign, ofSignedUnits, if_neg (by omega)]
      congr 1
    have hsize : IsSize x.units := ⟨x.magnitude, isFinite_iff.mp hx, rfl⟩
    rw [hsum]
    exact ⟨isNaN_ofUnits _ _ _, rfl, fun _ => le_units_ofUnits hsize one_pos (by omega) false⟩

theorem between_of_within_one (h : Within 1 x) (hsign : x.negative = false) :
    le 0 x = true ∧ le x 1 = true := by
  have hnan := isNaN_eq_false h.isFinite
  refine ⟨zero_le_of_not_negative hnan hsign, ?_⟩
  rw [le_iff_magnitude_le hnan isNaN_one hsign one_spec.1]
  exact within_one_iff.mp h

/-- A number that is at least one is positive. -/
theorem positive_of_one_le (hfinite : x.isFinite = true) (h : le 1 x = true) :
    x.negative = false ∧ 0 < x.units := by
  obtain ⟨-, hsign, hle⟩ := one_le_iff.mp h
  have hone := magnitude_one_ne_zero
  refine ⟨hsign, Nat.pos_of_ne_zero fun hzero => ?_⟩
  rw [(units_eq_zero_iff hfinite).mp hzero] at hle
  omega

theorem exists_betaRegularized? (a b : Binary64) (hzero : le 0 x = true) (hone : le x 1 = true) :
    ∃ beta, betaRegularized? a b x = some beta := by
  unfold betaRegularized?
  rw [hzero, hone, if_neg (by decide)]
  dsimp only
  split
  · exact ⟨_, rfl⟩
  · exact ⟨_, rfl⟩

theorem exists_studentExceeds? (hfreedom : freedom.isFinite = true) (hle : le 1 freedom = true)
    (ht : t.isFinite = true) : ∃ p, studentExceeds? freedom t = some p := by
  obtain ⟨hsign, hpos⟩ := positive_of_one_le hfreedom hle
  have hsquare : t * t = ofUnits false (t.units * t.units) unitsPerOne := by
    rw [mul_of_isFinite ht ht, bne_self_eq_false]
  obtain ⟨hnan, hsumSign, hunits⟩ := add_spec (y := t * t) hfreedom hsign hpos
    (by rw [hsquare]; exact isNaN_ofUnits _ _ _) (by rw [hsquare]; rfl)
  -- The sum is at least the degrees of freedom, which are positive.
  have hne : (freedom + t * t).magnitude ≠ 0 := by
    intro hzero
    have hfinite : (freedom + t * t).isFinite = true := by
      rw [isFinite_iff, hzero]
      decide
    have := (units_eq_zero_iff hfinite).mpr hzero
    have := hunits hfinite
    omega
  have hquotient : Within 1 (freedom / (freedom + t * t)) := by
    refine within_div hfreedom hnan hne (fun hfinite => ?_) (isWhole_of_le (by decide))
    rw [Nat.one_mul]
    exact hunits hfinite
  obtain ⟨hzero, hone⟩ := between_of_within_one hquotient (negative_div hsign hsumSign)
  obtain ⟨beta, hbeta⟩ := exists_betaRegularized? (freedom / 2) 0.5 hzero hone
  rw [studentExceeds?, hbeta]
  exact ⟨_, rfl⟩

/-- A coefficient that is a number has a p-value. -/
theorem exists_pValue? (hnan : r.isNaN = false) (hn : n ≤ 2 ^ 64) : ∃ p, pValue? r n = some p := by
  unfold pValue?
  obtain h | h | ⟨freedom, t, hfreedom, hle, ht, -, h⟩ := pValueWith?_cases studentExceeds? hnan hn
  · exact ⟨1, h⟩
  · exact ⟨0, h⟩
  · obtain ⟨p, hp⟩ := exists_studentExceeds? hfreedom hle ht
    rw [hp] at h
    exact ⟨_, h⟩

end DramTiming.Statistics
