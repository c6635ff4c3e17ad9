import DramTiming.Binary64.Arith
import Mathlib.Data.Nat.Log
import Mathlib.Tactic.Ring
import Mathlib.Tactic.Linarith

/-!
# Rounding to a magnitude

Rounding is monotone (`roundMagnitude_le_roundMagnitude`) and leaves the size of a magnitude as it
is (`roundMagnitude_unitsOf`).  Hence sizes grow with magnitudes (`unitsOf_le_unitsOf_iff`), and a
bound of the exact quotient that is itself a size bounds the rounded one
(`roundMagnitude_le_of_le`, `le_roundMagnitude_of_le`).
-/

namespace DramTiming.Binary64

/-! ### The nearest integer -/

theorem nearest_of_lt {num den : Nat} (h : 2 * (num % den) < den) : nearest num den = num / den := by
  rw [nearest, Nat.compare_eq_lt.mpr h]

theorem nearest_of_gt {num den : Nat} (h : den < 2 * (num % den)) :
    nearest num den = num / den + 1 := by
  rw [nearest, Nat.compare_eq_gt.mpr h]

theorem nearest_of_eq {num den : Nat} (h : 2 * (num % den) = den) :
    nearest num den = num / den + num / den % 2 := by
  rw [nearest, Nat.compare_eq_eq.mpr h]

theorem nearest_eq_or (num den : Nat) :
    (nearest num den = num / den ∧ 2 * (num % den) ≤ den) ∨
      (nearest num den = num / den + 1 ∧ den ≤ 2 * (num % den)) := by
  rcases lt_trichotomy (2 * (num % den)) den with h | h | h
  · exact .inl ⟨nearest_of_lt h, h.le⟩
  · rw [nearest_of_eq h]
    omega
  · exact .inr ⟨nearest_of_gt h, h.le⟩

theorem le_nearest {num den k : Nat} (hden : 0 < den) (h : k * den ≤ num) :
    k ≤ nearest num den := by
  have hk : k ≤ num / den := (Nat.le_div_iff_mul_le hden).mpr h
  rcases nearest_eq_or num den with ⟨heq, -⟩ | ⟨heq, -⟩ <;> omega

theorem nearest_le {num den k : Nat} (hden : 0 < den) (h : num ≤ k * den) :
    nearest num den ≤ k := by
  rcases nearest_eq_or num den with ⟨heq, -⟩ | ⟨heq, hup⟩
  · rw [heq]
    exact Nat.div_le_of_le_mul (by rwa [Nat.mul_comm])
  · -- What is rounded up is no multiple of `den`, so the next one is still at most `k * den`.
    have hrest : 0 < num % den := by omega
    have hdiv : num / den * den < num := by
      have := Nat.div_add_mod num den
      rw [Nat.mul_comm] at this
      omega
    have hlt : num / den < k := lt_of_mul_lt_mul_right (hdiv.trans_le h) (Nat.zero_le den)
    rw [heq]
    exact hlt

theorem nearest_mul {den : Nat} (hden : 0 < den) (k : Nat) : nearest (k * den) den = k :=
  Nat.le_antisymm (nearest_le hden le_rfl) (le_nearest hden le_rfl)

theorem div_le_div_of_mul_le_mul {num den num' den' : Nat} (hden : 0 < den) (hden' : 0 < den')
    (h : num * den' ≤ num' * den) : num / den ≤ num' / den' := by
  rw [Nat.le_div_iff_mul_le hden']
  refine le_of_mul_le_mul_right ?_ hden
  calc num / den * den' * den = num / den * den * den' := by ring
    _ ≤ num * den' := Nat.mul_le_mul_right _ (Nat.div_mul_le_self num den)
    _ ≤ num' * den := h

theorem div_le_nearest (num den : Nat) : num / den ≤ nearest num den := by
  rcases nearest_eq_or num den with ⟨heq, -⟩ | ⟨heq, -⟩ <;> omega

theorem nearest_le_div_add_one (num den : Nat) : nearest num den ≤ num / den + 1 := by
  rcases nearest_eq_or num den with ⟨heq, -⟩ | ⟨heq, -⟩ <;> omega

/-- Of equal quotients, rounded down, the rests decide. -/
theorem mod_mul_le_mod_mul {num den num' den' : Nat} (heq : num / den = num' / den')
    (h : num * den' ≤ num' * den) : num % den * den' ≤ num' % den' * den := by
  have hnum := Nat.div_add_mod num den
  have hnum' := Nat.div_add_mod num' den'
  rw [← hnum, ← hnum', heq] at h
  have hexpand : (den * (num' / den') + num % den) * den' =
      num' / den' * (den * den') + num % den * den' := by ring
  have hexpand' : (den' * (num' / den') + num' % den') * den =
      num' / den' * (den * den') + num' % den' * den := by ring
  omega

theorem nearest_le_nearest {num den num' den' : Nat} (hden : 0 < den) (hden' : 0 < den')
    (h : num * den' ≤ num' * den) : nearest num den ≤ nearest num' den' := by
  have hdiv := div_le_div_of_mul_le_mul hden hden' h
  have hge := div_le_nearest num' den'
  rcases hdiv.lt_or_eq with hlt | heq
  · -- A quotient that is smaller by one leaves room for rounding up.
    have hle := nearest_le_div_add_one num den
    omega
  · have hrest : 2 * (num % den) * den' ≤ 2 * (num' % den') * den := by
      rw [Nat.mul_assoc, Nat.mul_assoc]
      exact Nat.mul_le_mul_left 2 (mod_mul_le_mod_mul heq h)
    -- Where the smaller one is rounded up, or lies in the middle, so does the larger one, or more.
    have hgt (hr : den < 2 * (num % den)) : den' < 2 * (num' % den') := by
      refine lt_of_mul_lt_mul_right (a := den) ?_ (Nat.zero_le den)
      calc den' * den < 2 * (num % den) * den' := by
            rw [Nat.mul_comm]
            exact Nat.mul_lt_mul_of_pos_right hr hden'
        _ ≤ 2 * (num' % den') * den := hrest
    have hmiddle (hr : 2 * (num % den) = den) : den' ≤ 2 * (num' % den') := by
      refine le_of_mul_le_mul_right (a := den) ?_ hden
      rwa [hr, Nat.mul_comm] at hrest
    rcases lt_trichotomy (2 * (num % den)) den with hr | hr | hr
    · rw [nearest_of_lt hr, heq]
      exact hge
    · rw [nearest_of_eq hr, heq]
      rcases (hmiddle hr).lt_or_eq with hr' | hr'
      · rw [nearest_of_gt hr']
        omega
      · rw [nearest_of_eq hr'.symm]
    · rw [nearest_of_gt hr, nearest_of_gt (hgt hr), heq]

/-! ### Sizes and magnitudes -/

/-- The shift with which a quotient is rounded. -/
def shiftOf (num den : Nat) : Nat := (num / den).log2 - 52

theorem roundMagnitude_eq (num den : Nat) :
    roundMagnitude num den = Min.min infinityMagnitude
      (shiftOf num den * 2 ^ 52 + nearest num (den * 2 ^ shiftOf num den)) := rfl

theorem lt_of_shiftOf {num den : Nat} (hden : 0 < den) :
    num < 2 ^ 53 * (den * 2 ^ shiftOf num den) := by
  have hlog : num / den < 2 ^ ((num / den).log2 + 1) := Nat.lt_log2_self
  have hpow : 2 ^ ((num / den).log2 + 1) ≤ 2 ^ (53 + shiftOf num den) :=
    Nat.pow_le_pow_right (by decide) (by unfold shiftOf; omega)
  have hlt := (Nat.div_lt_iff_lt_mul hden).mp (hlog.trans_le hpow)
  calc num < 2 ^ (53 + shiftOf num den) * den := hlt
    _ = 2 ^ 53 * (den * 2 ^ shiftOf num den) := by rw [pow_add]; ring

theorem le_of_shiftOf_pos {num den : Nat} (hden : 0 < den) (hshift : 0 < shiftOf num den) :
    2 ^ 52 * (den * 2 ^ shiftOf num den) ≤ num := by
  have hne : num / den ≠ 0 := by
    intro h
    rw [shiftOf, h] at hshift
    exact absurd hshift (by decide)
  have hlog : 2 ^ (num / den).log2 ≤ num / den := Nat.log2_self_le hne
  have heq : (num / den).log2 = 52 + shiftOf num den := by
    unfold shiftOf at hshift ⊢
    omega
  rw [heq, Nat.le_div_iff_mul_le hden] at hlog
  calc 2 ^ 52 * (den * 2 ^ shiftOf num den) = 2 ^ (52 + shiftOf num den) * den := by
        rw [pow_add]; ring
    _ ≤ num := hlog

theorem shiftOf_le_shiftOf {num den num' den' : Nat} (hden : 0 < den) (hden' : 0 < den')
    (h : num * den' ≤ num' * den) : shiftOf num den ≤ shiftOf num' den' := by
  have hlog : (num / den).log2 ≤ (num' / den').log2 := by
    rw [Nat.log2_eq_log_two, Nat.log2_eq_log_two]
    exact Nat.log_mono_right (div_le_div_of_mul_le_mul hden hden' h)
  unfold shiftOf
  omega

/-- Rounding is monotone. -/
theorem roundMagnitude_le_roundMagnitude {num den num' den' : Nat} (hden : 0 < den)
    (hden' : 0 < den') (h : num * den' ≤ num' * den) :
    roundMagnitude num den ≤ roundMagnitude num' den' := by
  rw [roundMagnitude_eq, roundMagnitude_eq]
  refine min_le_min_left _ ?_
  rcases (shiftOf_le_shiftOf hden hden' h).lt_or_eq with hlt | heq
  · -- The steps of a larger shift begin where those of a smaller one end.
    have hsmall : nearest num (den * 2 ^ shiftOf num den) ≤ 2 ^ 53 :=
      nearest_le (by positivity) (lt_of_shiftOf hden).le
    have hlarge : 2 ^ 52 ≤ nearest num' (den' * 2 ^ shiftOf num' den') :=
      le_nearest (by positivity) (le_of_shiftOf_pos hden' (by omega))
    omega
  · rw [heq]
    have hscaled : num * (den' * 2 ^ shiftOf num' den') ≤ num' * (den * 2 ^ shiftOf num' den') := by
      calc num * (den' * 2 ^ shiftOf num' den') = num * den' * 2 ^ shiftOf num' den' := by ring
        _ ≤ num' * den * 2 ^ shiftOf num' den' := Nat.mul_le_mul_right _ h
        _ = num' * (den * 2 ^ shiftOf num' den') := by ring
    have := nearest_le_nearest (by positivity) (by positivity) hscaled
    omega

/-- The size of a magnitude, from its steps and the shift that gives their width. -/
theorem unitsOf_steps {steps shift : Nat} (hlt : steps < 2 ^ 53)
    (hge : shift = 0 ∨ 2 ^ 52 ≤ steps) :
    unitsOf (shift * 2 ^ 52 + steps) = steps * 2 ^ shift := by
  have hpow : twoTo 52 = 2 ^ 52 := rfl
  unfold unitsOf
  rw [hpow]
  split
  · next h =>
    obtain rfl : shift = 0 := by omega
    omega
  · next h =>
    have hfactor : 2 ^ 52 + (shift * 2 ^ 52 + steps) % 2 ^ 52 = steps := by omega
    have hshift : (shift * 2 ^ 52 + steps) / 2 ^ 52 - 1 = shift := by omega
    rw [hfactor, hshift]
    rfl

theorem exists_steps (m : Nat) :
    ∃ steps shift, m = shift * 2 ^ 52 + steps ∧ steps < 2 ^ 53 ∧ (shift = 0 ∨ 2 ^ 52 ≤ steps) := by
  by_cases h : m < 2 ^ 52
  · exact ⟨m, 0, by omega, by omega, .inl rfl⟩
  · exact ⟨2 ^ 52 + m % 2 ^ 52, m / 2 ^ 52 - 1, by omega, by omega, .inr (by omega)⟩

/-- The size of a magnitude is rounded to that magnitude. -/
theorem roundMagnitude_unitsOf {den : Nat} (hden : 0 < den) (m : Nat) :
    roundMagnitude (unitsOf m * den) den = Min.min infinityMagnitude m := by
  obtain ⟨steps, shift, rfl, hlt, hge⟩ := exists_steps m
  have hunits := unitsOf_steps hlt hge
  have hshift : shiftOf (unitsOf (shift * 2 ^ 52 + steps) * den) den = shift := by
    rw [shiftOf, Nat.mul_div_cancel _ hden, hunits]
    -- Below `2 ^ 52` steps there is no shift; from there the place of the leading digit gives it.
    rcases hge with rfl | hge
    · have hlog : (steps * 2 ^ 0).log2 < 53 := by
        by_cases hzero : steps = 0
        · rw [hzero]
          decide
        · exact (Nat.log2_lt (by omega)).mpr (by omega)
      omega
    · have hlog : (steps * 2 ^ shift).log2 = 52 + shift := by
        have hpos : 0 < 2 ^ shift := Nat.two_pow_pos shift
        refine (Nat.log2_eq_iff (by positivity)).mpr ⟨?_, ?_⟩
        · rw [pow_add]
          exact Nat.mul_le_mul_right _ hge
        · rw [Nat.add_right_comm, pow_add]
          exact Nat.mul_lt_mul_of_pos_right hlt hpos
      omega
  rw [roundMagnitude_eq, hshift, hunits]
  congr 2
  rw [show steps * 2 ^ shift * den = steps * (den * 2 ^ shift) by ring]
  exact nearest_mul (by positivity) steps

/-- What is at most the size of a magnitude is rounded to at most that magnitude. -/
theorem roundMagnitude_le_of_le {num den m : Nat} (hden : 0 < den) (h : num ≤ unitsOf m * den) :
    roundMagnitude num den ≤ m := by
  have hle := roundMagnitude_le_roundMagnitude hden hden (Nat.mul_le_mul_right den h)
  rw [roundMagnitude_unitsOf hden] at hle
  exact hle.trans (Nat.min_le_right _ _)

/-- What is at least the size of a magnitude is rounded to at least that magnitude. -/
theorem le_roundMagnitude_of_le {num den m : Nat} (hden : 0 < den) (hm : m ≤ infinityMagnitude)
    (h : unitsOf m * den ≤ num) : m ≤ roundMagnitude num den := by
  have hle := roundMagnitude_le_roundMagnitude hden hden (Nat.mul_le_mul_right den h)
  rwa [roundMagnitude_unitsOf hden, Nat.min_eq_right hm] at hle

/-- Sizes grow with magnitudes. -/
theorem unitsOf_lt_unitsOf {m m' : Nat} (hm' : m' ≤ infinityMagnitude) (h : m < m') :
    unitsOf m < unitsOf m' := by
  by_contra hle
  have hround : m' ≤ roundMagnitude (unitsOf m * 1) 1 :=
    le_roundMagnitude_of_le one_pos hm' (by omega)
  rw [roundMagnitude_unitsOf one_pos] at hround
  omega

theorem unitsOf_le_unitsOf_iff {m m' : Nat} (hm : m ≤ infinityMagnitude)
    (hm' : m' ≤ infinityMagnitude) : unitsOf m ≤ unitsOf m' ↔ m ≤ m' := by
  constructor
  · intro h
    by_contra hlt
    have := unitsOf_lt_unitsOf hm (Nat.lt_of_not_le hlt)
    omega
  · intro h
    rcases h.lt_or_eq with hlt | rfl
    · exact (unitsOf_lt_unitsOf hm' hlt).le
    · exact le_rfl

/-! ### Sizes -/

/-- Some finite double has this number of units. -/
def IsSize (n : Nat) : Prop := ∃ m < infinityMagnitude, unitsOf m = n

/-- A whole number of at most 53 binary places is a size, after any shift that stays in range. -/
theorem isSize_mul_two_pow {k e : Nat} (hk : k ≤ 2 ^ 53) (he : e ≤ 2044) : IsSize (k * 2 ^ e) := by
  -- With all 53 places taken, the last one is free to be shifted.
  obtain ⟨k', e', heq, hk', he'⟩ : ∃ k' e', k * 2 ^ e = k' * 2 ^ e' ∧ k' < 2 ^ 53 ∧ e' ≤ 2045 := by
    rcases hk.lt_or_eq with hlt | rfl
    · exact ⟨k, e, rfl, hlt, by omega⟩
    · exact ⟨2 ^ 52, e + 1, by ring, by decide, by omega⟩
  rw [heq]
  clear heq hk he
  -- Shift places from the power to the factor until that has 53 of them.
  induction e' generalizing k' with
  | zero =>
    refine ⟨0 * 2 ^ 52 + k', ?_, unitsOf_steps hk' (.inl rfl)⟩
    show 0 * 2 ^ 52 + k' < 2047 * 2 ^ 52
    omega
  | succ e ih =>
    by_cases hfull : 2 ^ 52 ≤ k'
    · refine ⟨(e + 1) * 2 ^ 52 + k', ?_, unitsOf_steps hk' (.inr hfull)⟩
      show (e + 1) * 2 ^ 52 + k' < 2047 * 2 ^ 52
      omega
    · rw [show k' * 2 ^ (e + 1) = 2 * k' * 2 ^ e by ring]
      exact ih (2 * k') (by omega) (by omega)

end DramTiming.Binary64
