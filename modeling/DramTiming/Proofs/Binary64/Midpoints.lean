import DramTiming.Proofs.Binary64.Doubling

/-!
# Rounding and the midpoints between neighbours

A number is rounded to at most a magnitude exactly if it is below the middle between that magnitude
and the next one, or in the middle, and the magnitude is even (`roundMagnitude_le_iff`).  So two
numbers are rounded differently only if such a middle separates them; numbers that are close enough
have at most one between them (`roundMagnitude_le_add_one`).
-/

namespace DramTiming.Binary64

variable {num den num' den' m k : Nat}

/-! ### Whole numbers -/

theorem nearest_le_iff (hden : 0 < den) :
    nearest num den ≤ k ↔
      2 * num < (2 * k + 1) * den ∨ 2 * num = (2 * k + 1) * den ∧ k % 2 = 0 := by
  rcases lt_trichotomy (2 * num) ((2 * k + 1) * den) with hlt | heq | hgt
  · exact iff_of_true (nearest_le_of_lt hden hlt) (.inl hlt)
  · -- In the middle, the even one of both neighbours is taken.
    have hmiddle : 2 * num = 2 * (k * den) + den := by rw [heq]; ring
    have hquotient : num / den = k := by
      rw [Nat.div_eq_iff hden]
      omega
    have hrest : 2 * (num % den) = den := by
      have hdiv := Nat.div_add_mod' num den
      rw [hquotient] at hdiv
      omega
    rw [nearest_of_eq hrest, hquotient]
    omega
  · have hlarge := lt_nearest_of_lt hden hgt
    refine iff_of_false (by omega) ?_
    omega

/-- A whole number that is nearest is at most one half away. -/
theorem nearest_spec (num : Nat) (hden : 0 < den) :
    2 * num ≤ 2 * (nearest num den * den) + den ∧
      2 * (nearest num den * den) ≤ 2 * num + den := by
  have hdiv := Nat.div_add_mod' num den
  have hmod := Nat.mod_lt num hden
  rcases nearest_eq_or num den with ⟨heq, hlow⟩ | ⟨heq, hhigh⟩
  · rw [heq]
    omega
  · have hnext : (num / den + 1) * den = num / den * den + den := Nat.succ_mul _ _
    rw [heq, hnext]
    omega

/-! ### Magnitudes -/

/-- Twice the middle between a magnitude and the next one, in units. -/
def midpoint (m : Nat) : Nat := unitsOf m + unitsOf (m + 1)

/-- The number `num / den` is below the middle between `m` and the next magnitude, or it is in the
middle and `m` is even. -/
def AtMost (m num den : Nat) : Prop :=
  2 * num < midpoint m * den ∨ 2 * num = midpoint m * den ∧ m % 2 = 0

theorem midpoint_steps {steps shift : Nat} (hlt : steps < 2 ^ 53)
    (hge : shift = 0 ∨ 2 ^ 52 ≤ steps) :
    midpoint (shift * 2 ^ 52 + steps) = (2 * steps + 1) * 2 ^ shift := by
  rw [midpoint, unitsOf_steps hlt hge, Nat.add_assoc,
    unitsOf_add_of_le hlt (hge.imp_right fun hle => hle.trans (Nat.le_succ _)), Nat.succ_eq_add_one]
  ring

/-- Which numbers are rounded to at most a magnitude. -/
theorem roundMagnitude_le_iff (hden : 0 < den) (hm : m < infinityMagnitude) :
    roundMagnitude num den ≤ m ↔ AtMost m num den := by
  obtain ⟨steps, shift, rfl, hlt, hge⟩ := exists_steps m
  have hparity : (shift * 2 ^ 52 + steps) % 2 = steps % 2 := by omega
  have hround : roundMagnitude num den ≤ shift * 2 ^ 52 + steps ↔
      shiftOf num den * 2 ^ 52 + nearest num (den * 2 ^ shiftOf num den) ≤
        shift * 2 ^ 52 + steps := by
    rw [roundMagnitude_eq]
    omega
  have hmiddle : midpoint (shift * 2 ^ 52 + steps) * den = (2 * steps + 1) * (den * 2 ^ shift) := by
    rw [midpoint_steps hlt hge]
    ring
  rw [AtMost, hround, hparity, hmiddle]
  have hnarrow {i i' : Nat} (h : i < i') : 2 * (den * 2 ^ i) ≤ den * 2 ^ i' := by
    calc 2 * (den * 2 ^ i) = den * 2 ^ (i + 1) := by rw [pow_succ]; ring
      _ ≤ den * 2 ^ i' := Nat.mul_le_mul_left _ (Nat.pow_le_pow_right two_pos h)
  have hupper : num < 2 ^ 53 * (den * 2 ^ shiftOf num den) := lt_of_shiftOf hden
  have hlower : 0 < shiftOf num den → 2 ^ 52 * (den * 2 ^ shiftOf num den) ≤ num :=
    le_of_shiftOf_pos hden
  have hpos : 0 < den * 2 ^ shiftOf num den := by positivity
  rcases lt_trichotomy (shiftOf num den) shift with hlow | heq | hhigh
  · -- The number has narrower steps, so it is less than the magnitude.
    have hsmall := nearest_le hpos hupper.le
    have hfull : 2 ^ 52 ≤ steps := hge.resolve_left (Nat.ne_zero_of_lt hlow)
    have hle := Nat.mul_le_mul hfull (hnarrow hlow)
    have hexpand : (2 * steps + 1) * (den * 2 ^ shift) =
        2 * (steps * (den * 2 ^ shift)) + den * 2 ^ shift := by ring
    refine iff_of_true (by omega) (.inl ?_)
    omega
  · rw [heq, ← nearest_le_iff (by positivity)]
    omega
  · -- The number has wider steps, so it is more than the next magnitude.
    have hlarge := le_nearest hpos (hlower (Nat.zero_lt_of_lt hhigh))
    have hle := Nat.mul_le_mul_right (den * 2 ^ shift) hlt
    have hwide := hnarrow hhigh
    have hexpand : (2 * steps + 1) * (den * 2 ^ shift) =
        2 * (steps * (den * 2 ^ shift)) + den * 2 ^ shift := by ring
    have hdouble := hlower (Nat.zero_lt_of_lt hhigh)
    rw [Nat.succ_mul] at hle
    refine iff_of_false (by omega) ?_
    omega

/-- Numbers are rounded alike if the same midpoints are above them. -/
theorem roundMagnitude_eq_iff (hden : 0 < den) (hden' : 0 < den') :
    roundMagnitude num den = roundMagnitude num' den' ↔
      ∀ m < infinityMagnitude, AtMost m num den ↔ AtMost m num' den' := by
  constructor
  · intro heq m hm
    rw [← roundMagnitude_le_iff hden hm, ← roundMagnitude_le_iff hden' hm, heq]
  · intro h
    have hle := roundMagnitude_le num den
    have hle' := roundMagnitude_le num' den'
    have hiff (m : Nat) (hm : m < infinityMagnitude) :
        roundMagnitude num den ≤ m ↔ roundMagnitude num' den' ≤ m := by
      rw [roundMagnitude_le_iff hden hm, roundMagnitude_le_iff hden' hm]
      exact h m hm
    by_contra hne
    rcases Nat.lt_or_gt_of_ne hne with hlt | hgt
    · have := (hiff _ (hlt.trans_le hle')).mp le_rfl
      omega
    · have := (hiff _ (hgt.trans_le hle)).mpr le_rfl
      omega

/-! ### Close numbers -/

/-- From one midpoint to the next it is more than one part in `2 ^ 53`. -/
theorem midpoint_lt_midpoint (m : Nat) :
    (2 ^ 53 + 1) * midpoint m < 2 ^ 53 * midpoint (m + 1) := by
  obtain ⟨steps, shift, rfl, hlt, hge⟩ := exists_steps m
  have hnext : (2 * steps + 3) * 2 ^ shift ≤ midpoint (shift * 2 ^ 52 + steps + 1) := by
    rcases (Nat.succ_le_of_lt hlt).lt_or_eq with hinside | hlast
    · rw [Nat.add_assoc, midpoint_steps hinside (by omega)]
      exact Nat.mul_le_mul_right _ (by omega)
    · -- The next magnitude is the first one with wider steps.
      obtain rfl : steps = 2 ^ 53 - 1 := by omega
      rw [show shift * 2 ^ 52 + (2 ^ 53 - 1) + 1 = (shift + 1) * 2 ^ 52 + 2 ^ 52 by omega,
        midpoint_steps (by decide) (.inr le_rfl)]
      calc (2 * (2 ^ 53 - 1) + 3) * 2 ^ shift ≤ (2 * 2 ^ 52 + 1) * 2 * 2 ^ shift :=
            Nat.mul_le_mul_right _ (by decide)
        _ = (2 * 2 ^ 52 + 1) * 2 ^ (shift + 1) := by
            rw [pow_succ 2 shift, Nat.mul_comm (2 ^ shift), Nat.mul_assoc]
  rw [midpoint_steps hlt hge]
  calc (2 ^ 53 + 1) * ((2 * steps + 1) * 2 ^ shift)
      = (2 ^ 53 + 1) * (2 * steps + 1) * 2 ^ shift := by rw [Nat.mul_assoc]
    _ < 2 ^ 53 * (2 * steps + 3) * 2 ^ shift :=
        Nat.mul_lt_mul_of_pos_right (by omega) (Nat.two_pow_pos shift)
    _ ≤ 2 ^ 53 * midpoint (shift * 2 ^ 52 + steps + 1) := by
        rw [Nat.mul_assoc]
        exact Nat.mul_le_mul_left _ hnext

/-- A number that exceeds another one by at most one part in `2 ^ 53` is rounded to at most the
neighbour of what that one is rounded to. -/
theorem roundMagnitude_le_add_one (hden : 0 < den) (hden' : 0 < den')
    (h : 2 ^ 53 * (num * den') ≤ (2 ^ 53 + 1) * (num' * den)) :
    roundMagnitude num den ≤ roundMagnitude num' den' + 1 := by
  by_cases hm : roundMagnitude num' den' + 1 < infinityMagnitude
  · rw [roundMagnitude_le_iff hden hm]
    have hatMost := (roundMagnitude_le_iff hden' (by omega)).mp (Nat.le_refl (roundMagnitude num' den'))
    generalize roundMagnitude num' den' = m at hatMost hm ⊢
    have hle : 2 * num' ≤ midpoint m * den' := hatMost.elim Nat.le_of_lt fun heq => heq.1.le
    left
    have hpos : 0 < 2 ^ 53 * den' := Nat.mul_pos (by decide) hden'
    refine Nat.lt_of_mul_lt_mul_left (a := 2 ^ 53 * den') ?_
    calc 2 ^ 53 * den' * (2 * num) = 2 * (2 ^ 53 * (num * den')) := by ring
      _ ≤ 2 * ((2 ^ 53 + 1) * (num' * den)) := Nat.mul_le_mul_left 2 h
      _ = (2 ^ 53 + 1) * (2 * num') * den := by ring
      _ ≤ (2 ^ 53 + 1) * (midpoint m * den') * den := by gcongr
      _ = (2 ^ 53 + 1) * midpoint m * (den' * den) := by ring
      _ < 2 ^ 53 * midpoint (m + 1) * (den' * den) :=
          Nat.mul_lt_mul_of_pos_right (midpoint_lt_midpoint m) (Nat.mul_pos hden' hden)
      _ = 2 ^ 53 * den' * (midpoint (m + 1) * den) := by ring
  · have hle := roundMagnitude_le num den
    omega

/-- A number with all its places is rounded by at most one part in `2 ^ 53`. -/
theorem units_ofUnits_close (hden : 0 < den) (hfull : 2 ^ 52 * den ≤ num) (negative : Bool)
    (hfinite : (ofUnits negative num den).isFinite = true) :
    2 ^ 53 * ((ofUnits negative num den).units * den) ≤ (2 ^ 53 + 1) * num ∧
      2 ^ 53 * num ≤ (2 ^ 53 + 1) * ((ofUnits negative num den).units * den) := by
  have hpos : 0 < den * 2 ^ shiftOf num den := by positivity
  have hlarge : 2 ^ 52 * (den * 2 ^ shiftOf num den) ≤ num := by
    rcases Nat.eq_zero_or_pos (shiftOf num den) with hzero | hshift
    · rwa [hzero, pow_zero, Nat.mul_one]
    · exact le_of_shiftOf_pos hden hshift
  have hproduct : (ofUnits negative num den).units * den =
      nearest num (den * 2 ^ shiftOf num den) * (den * 2 ^ shiftOf num den) := by
    rw [units_ofUnits_eq hden negative hfinite]
    ring
  have hsteps := Nat.mul_le_mul_right (den * 2 ^ shiftOf num den) (le_nearest hpos hlarge)
  have hspec := nearest_spec num hpos
  rw [hproduct]
  omega

end DramTiming.Binary64
