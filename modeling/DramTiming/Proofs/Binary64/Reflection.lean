import DramTiming.Proofs.Binary64.Scaling

/-!
# Reflection of numbers at zero

`Mirrored x y` says that `y` has the value of `x` with the other sign.  Rounding treats both signs
alike, so each operation takes mirrored operands to mirrored results.  The sign of a zero is left
out: a sum that vanishes is the positive zero on both sides.
-/

namespace DramTiming.Binary64

variable {x x' y y' lo lo' hi hi' : Binary64}

/-! ### Mirrored numbers -/

/-- The value of the second is that of the first with the other sign, or both are no numbers. -/
inductive Mirrored : Binary64 → Binary64 → Prop
  | nan {x y : Binary64} : x.isNaN = true → y.isNaN = true → Mirrored x y
  | infinite (negative : Bool) : Mirrored (infinity negative) (infinity !negative)
  | finite {x y : Binary64} : x.isFinite = true → y.isFinite = true →
      y.signedUnits = -x.signedUnits → Mirrored x y

theorem isNaN_infinity (negative : Bool) : (infinity negative).isNaN = false := by
  cases negative <;> decide

theorem isInfinite_infinity (negative : Bool) : (infinity negative).isInfinite = true := by
  cases negative <;> decide

theorem units_eq_of_signedUnits (h : y.signedUnits = -x.signedUnits) : y.units = x.units := by
  rw [← natAbs_signedUnits, ← natAbs_signedUnits, h, Int.natAbs_neg]

/-- Where the sizes are not zero, the signs are opposite. -/
theorem negative_eq_of_signedUnits (h : y.signedUnits = -x.signedUnits) (hne : x.units ≠ 0) :
    y.negative = !x.negative := by
  have hunits := units_eq_of_signedUnits h
  unfold signedUnits at h
  rw [hunits] at h
  cases hx : x.negative <;> cases hy : y.negative <;>
    simp only [hx, hy, if_true, Bool.false_eq_true, if_false, Bool.not_true,
      Bool.not_false] at h ⊢ <;>
    omega

theorem magnitude_eq_of_units (hx : x.isFinite = true) (hy : y.isFinite = true)
    (h : y.units = x.units) : y.magnitude = x.magnitude :=
  Nat.le_antisymm ((units_le_units_iff hy hx).mp h.le) ((units_le_units_iff hx hy).mp h.ge)

namespace Mirrored

theorem isNaN_eq (h : Mirrored x y) : y.isNaN = x.isNaN := by
  cases h with
  | nan hx hy => rw [hx, hy]
  | infinite => rw [isNaN_infinity, isNaN_infinity]
  | finite hx hy => rw [isNaN_eq_false hx, isNaN_eq_false hy]

theorem magnitude_eq (h : Mirrored x y) (hx : x.isNaN = false) : y.magnitude = x.magnitude := by
  cases h with
  | nan hnan => rw [hnan] at hx; cases hx
  | infinite => rfl
  | finite hfinite hfinite' h =>
    exact magnitude_eq_of_units hfinite hfinite' (units_eq_of_signedUnits h)

theorem numericKey_eq (h : Mirrored x y) (hx : x.isNaN = false) :
    y.numericKey = -x.numericKey := by
  have hmagnitude := h.magnitude_eq hx
  cases h with
  | nan hnan => rw [hnan] at hx; cases hx
  | infinite negative => cases negative <;> decide
  | finite hfinite hfinite' h =>
    by_cases hzero : x.units = 0
    · have hmagnitude' := (units_eq_zero_iff hfinite).mp hzero
      unfold numericKey
      rw [hmagnitude, hmagnitude']
      simp
    · have hsign := negative_eq_of_signedUnits h hzero
      unfold numericKey
      rw [hmagnitude, hsign]
      cases x.negative <;> simp

theorem abs_eq_or (h : Mirrored x y) :
    y.abs = x.abs ∨ x.abs.isNaN = true ∧ y.abs.isNaN = true := by
  by_cases hx : x.isNaN = true
  · exact .inr ⟨hx, h.isNaN_eq.trans hx⟩
  · have hmagnitude := h.magnitude_eq (Bool.eq_false_iff.mpr hx)
    obtain ⟨negative, magnitude, _⟩ := x
    obtain ⟨negative', magnitude', _⟩ := y
    obtain rfl : magnitude' = magnitude := hmagnitude
    exact .inl rfl

theorem neg (h : Mirrored x y) : Mirrored (-x) (-y) := by
  cases h with
  | nan hx hy => exact .nan hx hy
  | infinite negative => exact .infinite !negative
  | finite hx hy h => exact .finite hx hy (by rw [signedUnits_neg, signedUnits_neg, h])

end Mirrored

theorem neg_neg_self (x : Binary64) : -(-x) = x := by
  obtain ⟨negative, magnitude, _⟩ := x
  cases negative <;> rfl

/-- A number and the one that has the other sign. -/
theorem mirrored_neg (x : Binary64) : Mirrored x (-x) := by
  by_cases hfinite : x.isFinite = true
  · exact .finite hfinite hfinite (signedUnits_neg x)
  · rcases isNaN_or_isInfinite_of_not_isFinite hfinite with hnan | hinf
    · exact .nan hnan hnan
    · rw [eq_infinity hinf]
      exact .infinite x.negative

theorem mirrored_neg_self (x : Binary64) : Mirrored (-x) x := by
  have h := mirrored_neg (-x)
  rwa [neg_neg_self] at h

/-! ### Rounded results -/

theorem mirrored_ofUnits (negative : Bool) (num den : Nat) :
    Mirrored (ofUnits negative num den) (ofUnits (!negative) num den) := by
  by_cases hfinite : (ofUnits negative num den).isFinite = true
  · exact .finite hfinite hfinite (signedUnits_neg (ofUnits negative num den))
  · have hinf := (isNaN_or_isInfinite_of_not_isFinite hfinite).resolve_left
      (by rw [isNaN_ofUnits]; exact Bool.false_ne_true)
    have hinf' : (ofUnits (!negative) num den).isInfinite = true := hinf
    rw [eq_infinity hinf, eq_infinity hinf']
    exact .infinite negative

theorem mirrored_of_units_eq_zero (hx : x.isFinite = true) (hy : y.isFinite = true)
    (hxunits : x.units = 0) (hyunits : y.units = 0) : Mirrored x y := by
  have hzero {z : Binary64} (h : z.units = 0) : z.signedUnits = 0 := by
    rw [← Int.natAbs_eq_zero, natAbs_signedUnits, h]
  exact .finite hx hy (by rw [hzero hxunits, hzero hyunits, neg_zero])

theorem mirrored_zero : Mirrored 0 0 := by
  rw [zero_eq]
  have hfinite : (zero false).isFinite = true := (within_zero 0 false).isFinite
  exact mirrored_of_units_eq_zero hfinite hfinite rfl rfl

theorem mirrored_ofSignedUnits (zeroSign zeroSign' : Bool) (n : Int) :
    Mirrored (ofSignedUnits zeroSign n) (ofSignedUnits zeroSign' (-n)) := by
  unfold ofSignedUnits
  by_cases hzero : n = 0
  · rw [if_pos hzero, if_pos (by rw [hzero, neg_zero])]
    exact mirrored_of_units_eq_zero (within_zero 0 _).isFinite (within_zero 0 _).isFinite rfl rfl
  · rw [if_neg hzero, if_neg (neg_ne_zero.mpr hzero), Int.natAbs_neg]
    have hsign : decide (-n < 0) = !decide (n < 0) := by
      rw [← decide_not, decide_eq_decide]
      omega
    rw [hsign]
    exact mirrored_ofUnits _ _ _

/-- A number rounded from a size with a sign is mirrored with that sign; the size may vanish, and
then the signs are free. -/
theorem mirrored_ofUnits_of_signedUnits {num den : Nat} (h : y.signedUnits = -x.signedUnits)
    (hden : 0 < den) (hnum : x.units = 0 → num = 0) (other : Bool) :
    Mirrored (ofUnits (x.negative != other) num den) (ofUnits (y.negative != other) num den) := by
  by_cases hzero : x.units = 0
  · have hle : num ≤ 0 * den := by rw [hnum hzero, Nat.zero_mul]
    have hround (negative : Bool) := units_ofUnits_le ⟨0, by decide, rfl⟩ hden hle negative
    exact mirrored_of_units_eq_zero (hround _).1 (hround _).1 (Nat.le_zero.mp (hround _).2)
      (Nat.le_zero.mp (hround _).2)
  · rw [negative_eq_of_signedUnits h hzero, Bool.not_bne]
    exact mirrored_ofUnits _ _ _

/-! ### Operations -/

theorem infinity_add_of_isFinite (negative : Bool) (hy : y.isFinite = true) :
    infinity negative + y = infinity negative := by
  show add (infinity negative) y = _
  rw [add, isNaN_infinity, isNaN_eq_false hy, isInfinite_infinity, isInfinite_eq_false hy]
  rfl

theorem add_infinity_of_isFinite (hx : x.isFinite = true) (negative : Bool) :
    x + infinity negative = infinity negative := by
  show add x (infinity negative) = _
  rw [add, isNaN_infinity, isNaN_eq_false hx, isInfinite_infinity, isInfinite_eq_false hx]
  rfl

namespace Mirrored

theorem add (hx : Mirrored x x') (hy : Mirrored y y') : Mirrored (x + y) (x' + y') := by
  cases hx with
  | nan hnan hnan' => exact .nan (isNaN_add (.inl hnan)) (isNaN_add (.inl hnan'))
  | infinite negative =>
    cases hy with
    | nan hnan hnan' => exact .nan (isNaN_add (.inr hnan)) (isNaN_add (.inr hnan'))
    | infinite negative' =>
      -- Two infinities have a sum exactly if their signs are the same.
      cases negative <;> cases negative'
      · exact .infinite false
      · exact .nan (by decide) (by decide)
      · exact .nan (by decide) (by decide)
      · exact .infinite true
    | finite hfinite hfinite' =>
      rw [infinity_add_of_isFinite _ hfinite, infinity_add_of_isFinite _ hfinite']
      exact .infinite negative
  | finite hxfinite hxfinite' hxunits =>
    cases hy with
    | nan hnan hnan' => exact .nan (isNaN_add (.inr hnan)) (isNaN_add (.inr hnan'))
    | infinite negative =>
      rw [add_infinity_of_isFinite hxfinite, add_infinity_of_isFinite hxfinite']
      exact .infinite negative
    | finite hyfinite hyfinite' hyunits =>
      rw [add_of_isFinite hxfinite hyfinite, add_of_isFinite hxfinite' hyfinite', hxunits, hyunits,
        ← neg_add]
      exact mirrored_ofSignedUnits _ _ _

theorem sub (hx : Mirrored x x') (hy : Mirrored y y') : Mirrored (x - y) (x' - y') :=
  hx.add hy.neg

end Mirrored

theorem isNaN_or_infinity_or_isFinite (x : Binary64) :
    x.isNaN = true ∨ (∃ negative, x = infinity negative) ∨ x.isFinite = true := by
  by_cases hfinite : x.isFinite = true
  · exact .inr (.inr hfinite)
  · rcases isNaN_or_isInfinite_of_not_isFinite hfinite with hnan | hinf
    · exact .inl hnan
    · exact .inr (.inl ⟨_, eq_infinity hinf⟩)

theorem infinity_or_isFinite (h : x.isNaN = false) :
    (∃ negative, x = infinity negative) ∨ x.isFinite = true :=
  (isNaN_or_infinity_or_isFinite x).resolve_left (Bool.eq_false_iff.mp h)

theorem infinity_mul (negative : Bool) (hy : y.isNaN = false) :
    infinity negative * y = if y.isZero then nan else infinity (negative != y.negative) := by
  show mul (infinity negative) y = _
  rw [mul, isNaN_infinity, hy, isInfinite_infinity]
  rfl

theorem mul_infinity (hx : x.isFinite = true) (negative : Bool) :
    x * infinity negative = if x.isZero then nan else infinity (x.negative != negative) := by
  show mul x (infinity negative) = _
  rw [mul, isNaN_infinity, isNaN_eq_false hx, isInfinite_infinity, isInfinite_eq_false hx]
  rfl

theorem infinity_div_of_isFinite (negative : Bool) (hy : y.isFinite = true) :
    infinity negative / y = infinity (negative != y.negative) := by
  show div (infinity negative) y = _
  rw [div, isNaN_infinity, isNaN_eq_false hy, isInfinite_infinity, isInfinite_eq_false hy]
  rfl

theorem div_infinity (hx : x.isFinite = true) (negative : Bool) :
    x / infinity negative = zero (x.negative != negative) := by
  show div x (infinity negative) = _
  rw [div, isNaN_infinity, isNaN_eq_false hx, isInfinite_infinity, isInfinite_eq_false hx]
  rfl

theorem div_of_isZero (hx : x.isFinite = true) (hy : y.isZero = true) :
    x / y = if x.isZero then nan else infinity (x.negative != y.negative) := by
  have hfinite : y.isFinite = true := by
    rw [isFinite_iff, isZero_iff.mp hy]
    decide
  show div x y = _
  rw [div, isNaN_eq_false hx, isNaN_eq_false hfinite, isInfinite_eq_false hx,
    isInfinite_eq_false hfinite, hy]
  rfl

/-- An infinity for a finite number that is not zero, with its sign. -/
theorem mirrored_infinity_of_signedUnits (hx : x.isFinite = true) (hx' : x'.isFinite = true)
    (h : x'.signedUnits = -x.signedUnits) (other : Bool) :
    Mirrored (if x.isZero then nan else infinity (x.negative != other))
      (if x'.isZero then nan else infinity (x'.negative != other)) := by
  have hzero : x'.isZero = x.isZero := by
    rw [isZero, isZero, magnitude_eq_of_units hx hx' (units_eq_of_signedUnits h)]
  rw [hzero]
  by_cases hxzero : x.isZero = true
  · rw [if_pos hxzero, if_pos hxzero]
    exact .nan isNaN_nan isNaN_nan
  · have hne : x.units ≠ 0 := fun hunits =>
      hxzero (isZero_iff.mpr ((units_eq_zero_iff hx).mp hunits))
    rw [if_neg hxzero, if_neg hxzero, negative_eq_of_signedUnits h hne, Bool.not_bne]
    exact .infinite _

/-- All products that are no numbers are the same. -/
theorem mul_eq_nan (h : (x * y).isNaN = true) : x * y = nan := by
  change (mul x y).isNaN = true at h
  change mul x y = nan
  unfold mul at h ⊢
  dsimp only at h ⊢
  split_ifs at h ⊢ <;> first | rfl | exact absurd h (by simp [isNaN_infinity, isNaN_ofUnits])

namespace Mirrored

theorem mul_right (h : Mirrored x x') (y : Binary64) : Mirrored (x * y) (x' * y) := by
  obtain hnan | ⟨negative', rfl⟩ | hy := isNaN_or_infinity_or_isFinite y
  · exact .nan (isNaN_mul (.inr hnan)) (isNaN_mul (.inr hnan))
  · cases h with
    | nan hnan hnan' => exact .nan (isNaN_mul (.inl hnan)) (isNaN_mul (.inl hnan'))
    | infinite negative => cases negative <;> cases negative' <;> exact .infinite _
    | finite hx hx' h =>
      rw [mul_infinity hx, mul_infinity hx']
      exact mirrored_infinity_of_signedUnits hx hx' h negative'
  · cases h with
    | nan hnan hnan' => exact .nan (isNaN_mul (.inl hnan)) (isNaN_mul (.inl hnan'))
    | infinite negative =>
      rw [infinity_mul _ (isNaN_eq_false hy), infinity_mul _ (isNaN_eq_false hy), Bool.not_bne]
      split
      · exact .nan isNaN_nan isNaN_nan
      · exact .infinite _
    | finite hx hx' h =>
      rw [mul_of_isFinite hx hy, mul_of_isFinite hx' hy, units_eq_of_signedUnits h]
      exact mirrored_ofUnits_of_signedUnits h unitsPerOne_pos
        (fun hzero => by rw [hzero, Nat.zero_mul]) y.negative

theorem div_right (h : Mirrored x x') (y : Binary64) : Mirrored (x / y) (x' / y) := by
  obtain hnan | ⟨negative', rfl⟩ | hy := isNaN_or_infinity_or_isFinite y
  · exact .nan (isNaN_div (.inr hnan)) (isNaN_div (.inr hnan))
  · cases h with
    | nan hnan hnan' => exact .nan (isNaN_div (.inl hnan)) (isNaN_div (.inl hnan'))
    | infinite negative =>
      rw [infinite_div_infinite (isInfinite_infinity _) (isInfinite_infinity _),
        infinite_div_infinite (isInfinite_infinity _) (isInfinite_infinity _)]
      exact .nan isNaN_nan isNaN_nan
    | finite hx hx' h =>
      rw [div_infinity hx, div_infinity hx']
      exact mirrored_of_units_eq_zero (within_zero 0 _).isFinite (within_zero 0 _).isFinite rfl rfl
  · cases h with
    | nan hnan hnan' => exact .nan (isNaN_div (.inl hnan)) (isNaN_div (.inl hnan'))
    | infinite negative =>
      rw [infinity_div_of_isFinite _ hy, infinity_div_of_isFinite _ hy, Bool.not_bne]
      exact .infinite _
    | finite hx hx' h =>
      by_cases hzero : y.isZero = true
      · rw [div_of_isZero hx hzero, div_of_isZero hx' hzero]
        exact mirrored_infinity_of_signedUnits hx hx' h y.negative
      · have hne : y.magnitude ≠ 0 := fun hmagnitude => hzero (isZero_iff.mpr hmagnitude)
        have hpos : 0 < y.units :=
          Nat.pos_of_ne_zero fun hunits => hne ((units_eq_zero_iff hy).mp hunits)
        rw [div_of_isFinite hx hy hne, div_of_isFinite hx' hy hne, units_eq_of_signedUnits h]
        exact mirrored_ofUnits_of_signedUnits h hpos
          (fun hzero => by rw [hzero, Nat.zero_mul]) y.negative

theorem abs_mul_right (h : Mirrored x x') (y : Binary64) : (x' * y).abs = (x * y).abs := by
  rcases (h.mul_right y).abs_eq_or with heq | ⟨hnan, hnan'⟩
  · exact heq
  · rw [mul_eq_nan hnan, mul_eq_nan hnan']

/-- Squares of mirrored numbers are the same. -/
theorem mul_self_eq (h : Mirrored x x') : x' * x' = x * x := by
  cases h with
  | nan hx hx' => rw [mul_eq_nan (isNaN_mul (.inl hx)), mul_eq_nan (isNaN_mul (.inl hx'))]
  | infinite negative => cases negative <;> decide
  | finite hx hx' h =>
    rw [mul_of_isFinite hx hx, mul_of_isFinite hx' hx', units_eq_of_signedUnits h,
      bne_self_eq_false, bne_self_eq_false]

/-! ### Comparisons -/

theorem eq_eq (hx : Mirrored x x') (hy : Mirrored y y') : Binary64.eq x' y' = Binary64.eq x y := by
  rw [Bool.eq_iff_iff, eq_iff, eq_iff, hx.isNaN_eq, hy.isNaN_eq, and_congr_right_iff]
  intro hxnan
  refine and_congr_right fun hynan => ?_
  rw [hx.numericKey_eq hxnan, hy.numericKey_eq hynan, neg_inj]

theorem lt_eq (hx : Mirrored x x') (hy : Mirrored y y') : lt x' y' = lt y x := by
  rw [Bool.eq_iff_iff, lt_iff, lt_iff, hx.isNaN_eq, hy.isNaN_eq, and_left_comm,
    and_congr_right_iff]
  intro hynan
  refine and_congr_right fun hxnan => ?_
  rw [hx.numericKey_eq hxnan, hy.numericKey_eq hynan, neg_lt_neg_iff]

theorem max_abs_eq (h : Mirrored x x') (y : Binary64) :
    Binary64.max y x'.abs = Binary64.max y x.abs := by
  rcases h.abs_eq_or with heq | ⟨hnan, hnan'⟩
  · rw [heq]
  · rw [Binary64.max, Binary64.max, hnan, hnan', Bool.true_or, Bool.true_or, if_pos rfl, if_pos rfl]

theorem le_abs_eq (h : Mirrored x x') (y : Binary64) : le y x'.abs = le y x.abs := by
  rcases h.abs_eq_or with heq | ⟨hnan, hnan'⟩
  · rw [heq]
  · rw [le, le, hnan, hnan']
    simp

theorem clamp (hx : Mirrored x x') (hlo : Mirrored lo lo') (hhi : Mirrored hi hi')
    (hle : lt hi lo = false) : Mirrored (clamp x lo hi) (clamp x' hi' lo') := by
  unfold Binary64.clamp
  rw [hx.lt_eq hhi, hlo.lt_eq hx]
  by_cases hbelow : lt x lo = true
  · have habove : ¬ lt hi x = true := fun habove => by
      rw [lt_trans habove hbelow] at hle
      cases hle
    rw [if_pos hbelow, if_neg habove, if_pos hbelow]
    exact hlo
  · by_cases habove : lt hi x = true
    · rw [if_neg hbelow, if_pos habove, if_pos habove]
      exact hhi
    · rw [if_neg hbelow, if_neg habove, if_neg habove, if_neg hbelow]
      exact hx

end Mirrored

/-! ### Opposite numbers -/

/-- The second is a number, and numerically the first with the other sign. -/
def Opposite (x y : Binary64) : Prop := Binary64.eq y (-x) = true

theorem Mirrored.opposite (h : Mirrored x y) (hx : x.isNaN = false) : Opposite x y :=
  eq_iff.mpr ⟨h.isNaN_eq.trans hx, hx,
    (h.numericKey_eq hx).trans ((mirrored_neg x).numericKey_eq hx).symm⟩

end DramTiming.Binary64
