import DramTiming.Proofs.Binary64.Magnitude
import DramTiming.Proofs.Binary64.SquareRoot
import Mathlib.Data.Nat.Sqrt

/-!
# Numbers that differ by a power of two

`Doubled j g x y` says that `y` is `x` doubled `j` times, and that the size of `x` is a multiple of
`2 ^ g` units.  Rounding a doubled number is doubling the rounded one (`roundMagnitude_mul_two_pow`),
as long as it has all its 53 places.  Numbers whose sizes are multiples of enough units do, so each
operation takes doubled operands to a doubled result; a quotient of two numbers that are doubled
equally often stays the same bit for bit (`Doubled.div_eq`).
-/

namespace DramTiming.Binary64

variable {x x' y y' : Binary64} {g g' j j' : Nat}

/-! ### Rounding depends on the value alone -/

theorem nearest_congr {num den num' den' : Nat} (hden : 0 < den) (hden' : 0 < den')
    (h : num * den' = num' * den) : nearest num den = nearest num' den' :=
  Nat.le_antisymm (nearest_le_nearest hden hden' h.le) (nearest_le_nearest hden' hden h.ge)

theorem roundMagnitude_congr {num den num' den' : Nat} (hden : 0 < den) (hden' : 0 < den')
    (h : num * den' = num' * den) : roundMagnitude num den = roundMagnitude num' den' :=
  Nat.le_antisymm (roundMagnitude_le_roundMagnitude hden hden' h.le)
    (roundMagnitude_le_roundMagnitude hden' hden h.ge)

theorem roundMagnitude_zero {den : Nat} (hden : 0 < den) : roundMagnitude 0 den = 0 :=
  Nat.le_zero.mp (roundMagnitude_le_of_le hden (Nat.zero_le _))

theorem roundMagnitude_le (num den : Nat) : roundMagnitude num den ≤ infinityMagnitude :=
  Nat.min_le_left _ _

theorem magnitude_ofUnits (negative : Bool) (num den : Nat) :
    (ofUnits negative num den).magnitude = roundMagnitude num den := rfl

theorem isFinite_ofUnits_iff {negative : Bool} {num den : Nat} :
    (ofUnits negative num den).isFinite = true ↔ roundMagnitude num den < infinityMagnitude := by
  rw [isFinite_iff, magnitude_ofUnits]

theorem ofUnits_eq_ofUnits_iff {negative : Bool} {num den num' den' : Nat} :
    ofUnits negative num den = ofUnits negative num' den' ↔
      roundMagnitude num den = roundMagnitude num' den' :=
  ⟨congrArg magnitude, fun h => by simp only [ofUnits, h]⟩

theorem ofUnits_zero {den : Nat} (hden : 0 < den) (negative : Bool) :
    ofUnits negative 0 den = zero negative := by
  simp only [ofUnits, zero, roundMagnitude_zero hden]

theorem magnitude_ne_zero (hfinite : x.isFinite = true) (hpos : 0 < x.units) : x.magnitude ≠ 0 :=
  fun hzero => hpos.ne' ((units_eq_zero_iff hfinite).mpr hzero)

theorem ofUnits_congr {num den num' den' : Nat} (hden : 0 < den) (hden' : 0 < den')
    (h : num * den' = num' * den) (negative : Bool) :
    ofUnits negative num den = ofUnits negative num' den' :=
  ofUnits_eq_ofUnits_iff.mpr (roundMagnitude_congr hden hden' h)

theorem lt_nearest_of_lt {num den k : Nat} (hden : 0 < den) (h : (2 * k + 1) * den < 2 * num) :
    k < nearest num den := by
  have hdiv := Nat.div_add_mod' num den
  have hmod := Nat.mod_lt num hden
  have hexpand : (2 * k + 1) * den = 2 * (k * den) + den := by ring
  by_contra hle
  rcases nearest_eq_or num den with ⟨heq, hlow⟩ | ⟨heq, -⟩
  · have hquotient : num / den * den ≤ k * den := Nat.mul_le_mul_right den (by omega)
    omega
  · -- A quotient that is rounded up to at most `k` is below it.
    have hquotient : (num / den + 1) * den ≤ k * den := Nat.mul_le_mul_right den (by omega)
    rw [Nat.succ_mul] at hquotient
    omega

/-! ### Rounding and doubling -/

theorem shiftOf_mul_two_pow {num den : Nat} (hden : 0 < den) (h : 2 ^ 52 * den ≤ num) (j : Nat) :
    shiftOf (2 ^ j * num) den = shiftOf num den + j := by
  have hlarge : 2 ^ 52 ≤ num / den := (Nat.le_div_iff_mul_le hden).mpr h
  have hne : num / den ≠ 0 := by omega
  have hlog : 52 ≤ (num / den).log2 := (Nat.le_log2 hne).mpr hlarge
  have hdoubled : (2 ^ j * num / den).log2 = (num / den).log2 + j := by
    have hlo : 2 ^ (num / den).log2 * den ≤ num :=
      (Nat.le_div_iff_mul_le hden).mp (Nat.log2_self_le hne)
    have hhi : num < 2 ^ ((num / den).log2 + 1) * den :=
      (Nat.div_lt_iff_lt_mul hden).mp Nat.lt_log2_self
    have hle : 2 ^ ((num / den).log2 + j) ≤ 2 ^ j * num / den := by
      rw [Nat.le_div_iff_mul_le hden]
      calc 2 ^ ((num / den).log2 + j) * den = 2 ^ j * (2 ^ (num / den).log2 * den) := by
            rw [pow_add]; ring
        _ ≤ 2 ^ j * num := Nat.mul_le_mul_left _ hlo
    refine (Nat.log2_eq_iff ?_).mpr ⟨hle, ?_⟩
    · exact (Nat.lt_of_lt_of_le (Nat.two_pow_pos _) hle).ne'
    · rw [Nat.div_lt_iff_lt_mul hden]
      calc 2 ^ j * num < 2 ^ j * (2 ^ ((num / den).log2 + 1) * den) :=
            Nat.mul_lt_mul_of_pos_left hhi (Nat.two_pow_pos j)
        _ = 2 ^ ((num / den).log2 + j + 1) * den := by rw [pow_succ, pow_succ, pow_add]; ring
  unfold shiftOf
  omega

/-- A number with all its places is rounded in the same way after doubling. -/
theorem roundMagnitude_mul_two_pow {num den : Nat} (hden : 0 < den) (h : 2 ^ 52 * den ≤ num)
    (j : Nat) : roundMagnitude (2 ^ j * num) den =
      Min.min infinityMagnitude (roundMagnitude num den + j * 2 ^ 52) := by
  have hnearest : nearest (2 ^ j * num) (den * 2 ^ (shiftOf num den + j)) =
      nearest num (den * 2 ^ shiftOf num den) := by
    apply nearest_congr (by positivity) (by positivity)
    rw [pow_add]
    ring
  rw [roundMagnitude_eq, roundMagnitude_eq, shiftOf_mul_two_pow hden h, hnearest]
  omega

theorem unitsOf_add_mul {m : Nat} (hm : 2 ^ 52 ≤ m) (j : Nat) :
    unitsOf (m + j * 2 ^ 52) = 2 ^ j * unitsOf m := by
  obtain ⟨steps, shift, rfl, hlt, hge⟩ := exists_steps m
  have hsteps : 2 ^ 52 ≤ steps := by
    rcases hge with rfl | hge
    · omega
    · exact hge
  rw [show shift * 2 ^ 52 + steps + j * 2 ^ 52 = (shift + j) * 2 ^ 52 + steps by ring,
    unitsOf_steps hlt (.inr hsteps), unitsOf_steps hlt (.inr hsteps), pow_add]
  ring

/-- Magnitudes with all 53 places. -/
theorem le_roundMagnitude_of_full {num den : Nat} (hden : 0 < den) (h : 2 ^ 52 * den ≤ num) :
    2 ^ 52 ≤ roundMagnitude num den := by
  have hunits : unitsOf (2 ^ 52) = 2 ^ 52 := by decide +kernel
  refine le_roundMagnitude_of_le hden (by decide) ?_
  rwa [hunits]

/-- The double of a number that is rounded is the rounded double, if that is finite. -/
theorem units_ofUnits_of_mul_eq {num den num' den' : Nat} (hden : 0 < den) (hden' : 0 < den')
    (heq : num' * den = 2 ^ j * num * den') (hfull : num = 0 ∨ 2 ^ 52 * den ≤ num)
    (negative : Bool) (hfinite : (ofUnits negative num' den').isFinite = true) :
    (ofUnits negative num den).isFinite = true ∧
      (ofUnits negative num' den').units = 2 ^ j * (ofUnits negative num den).units := by
  have hround : roundMagnitude num' den' = roundMagnitude (2 ^ j * num) den :=
    roundMagnitude_congr hden' hden heq
  rw [isFinite_ofUnits_iff, units, units, magnitude_ofUnits, magnitude_ofUnits]
  rcases hfull with rfl | hfull
  · rw [Nat.mul_zero, roundMagnitude_zero hden] at hround
    rw [hround, roundMagnitude_zero hden]
    exact ⟨by decide, (Nat.mul_zero _).symm⟩
  · rw [roundMagnitude_mul_two_pow hden hfull] at hround
    have hlt := isFinite_ofUnits_iff.mp hfinite
    have hsum : roundMagnitude num' den' = roundMagnitude num den + j * 2 ^ 52 := by omega
    rw [hsum, unitsOf_add_mul (le_roundMagnitude_of_full hden hfull)]
    exact ⟨by omega, rfl⟩

/-! ### Multiples of powers of two -/

theorem exists_units_eq (x : Binary64) :
    ∃ steps shift, x.units = steps * 2 ^ shift ∧ steps < 2 ^ 53 ∧ (shift = 0 ∨ 2 ^ 52 ≤ steps) := by
  obtain ⟨steps, shift, heq, hlt, hge⟩ := exists_steps x.magnitude
  exact ⟨steps, shift, by rw [units, heq, unitsOf_steps hlt hge], hlt, hge⟩

/-- Large numbers are multiples of many units. -/
theorem two_pow_dvd_units (h : x.units = 0 ∨ 2 ^ (g + 52) ≤ x.units) : 2 ^ g ∣ x.units := by
  rcases h with h | h
  · simp [h]
  · obtain ⟨steps, shift, hunits, hlt, -⟩ := exists_units_eq x
    rw [hunits] at h ⊢
    have hshift : g ≤ shift := by
      have hpow : 2 ^ (g + 52) < 2 ^ (shift + 53) := by
        calc 2 ^ (g + 52) ≤ steps * 2 ^ shift := h
          _ < 2 ^ 53 * 2 ^ shift := Nat.mul_lt_mul_of_pos_right hlt (Nat.two_pow_pos shift)
          _ = 2 ^ (shift + 53) := by rw [pow_add, Nat.mul_comm]
      have := (Nat.pow_lt_pow_iff_right (by decide : 1 < 2)).mp hpow
      omega
    exact (pow_dvd_pow 2 hshift).mul_left steps

theorem unitsOf_add_of_le {steps shift : Nat} (hle : steps ≤ 2 ^ 53)
    (hge : shift = 0 ∨ 2 ^ 52 ≤ steps) :
    unitsOf (shift * 2 ^ 52 + steps) = steps * 2 ^ shift := by
  rcases hle.lt_or_eq with hlt | rfl
  · exact unitsOf_steps hlt hge
  · -- The last step of a block is the first of the next.
    rw [show shift * 2 ^ 52 + 2 ^ 53 = (shift + 1) * 2 ^ 52 + 2 ^ 52 by ring,
      unitsOf_steps (by decide) (.inr le_rfl), pow_succ]
    ring

/-- A rounded number is a whole number of steps. -/
theorem units_ofUnits_eq {num den : Nat} (hden : 0 < den) (negative : Bool)
    (hfinite : (ofUnits negative num den).isFinite = true) :
    (ofUnits negative num den).units =
      nearest num (den * 2 ^ shiftOf num den) * 2 ^ shiftOf num den := by
  have hround : roundMagnitude num den =
      shiftOf num den * 2 ^ 52 + nearest num (den * 2 ^ shiftOf num den) := by
    have hlt := isFinite_ofUnits_iff.mp hfinite
    rw [roundMagnitude_eq] at hlt ⊢
    omega
  rw [units, magnitude_ofUnits, hround]
  refine unitsOf_add_of_le (nearest_le (by positivity) (lt_of_shiftOf hden).le) ?_
  rcases Nat.eq_zero_or_pos (shiftOf num den) with hzero | hpos
  · exact .inl hzero
  · exact .inr (le_nearest (by positivity) (le_of_shiftOf_pos hden hpos))

/-- Rounding leaves a multiple of a power of two one. -/
theorem two_pow_dvd_units_ofUnits {n : Nat} (h : 2 ^ g ∣ n) (negative : Bool)
    (hfinite : (ofUnits negative n 1).isFinite = true) :
    2 ^ g ∣ (ofUnits negative n 1).units := by
  rw [units_ofUnits_eq one_pos negative hfinite, Nat.one_mul]
  rcases Nat.le_total g (shiftOf n 1) with hle | hge
  · exact (pow_dvd_pow 2 hle).mul_left _
  · -- It is a multiple of the step, so it is left as it is.
    obtain ⟨k, hk⟩ := (pow_dvd_pow 2 hge).trans h
    have hexact : nearest n (2 ^ shiftOf n 1) * 2 ^ shiftOf n 1 = n := by
      generalize shiftOf n 1 = shift at hk
      rw [hk, Nat.mul_comm (2 ^ shift), nearest_mul (Nat.two_pow_pos shift)]
    rwa [hexact]

/-! ### Doubled numbers -/

/-- `y` is `x` doubled `j` times, and the size of `x` is a multiple of `2 ^ g` units. -/
structure Doubled (j g : Nat) (x y : Binary64) : Prop where
  isFinite : x.isFinite = true
  isFinite_right : y.isFinite = true
  negative_eq : y.negative = x.negative
  units_eq : y.units = 2 ^ j * x.units
  dvd_units : 2 ^ g ∣ x.units

namespace Doubled

theorem mono (h : Doubled j g x y) (hle : g' ≤ g) : Doubled j g' x y :=
  { h with dvd_units := (pow_dvd_pow 2 hle).trans h.dvd_units }

theorem signedUnits_eq (h : Doubled j g x y) : y.signedUnits = 2 ^ j * x.signedUnits := by
  unfold signedUnits
  rw [h.negative_eq, h.units_eq]
  split <;> push_cast <;> ring

theorem neg (h : Doubled j g x y) : Doubled j g (-x) (-y) where
  isFinite := h.isFinite
  isFinite_right := h.isFinite_right
  negative_eq := congrArg Bool.not h.negative_eq
  units_eq := h.units_eq
  dvd_units := h.dvd_units

theorem units_eq_zero_iff_right (h : Doubled j g x y) : y.units = 0 ↔ x.units = 0 := by
  simp [h.units_eq]

end Doubled

/-- Rounded numbers of which one is twice, or more often, the other. -/
theorem doubled_ofUnits {num den num' den' : Nat} (hden : 0 < den) (hden' : 0 < den')
    (heq : num' * den = 2 ^ j * num * den') (hg : g ≤ 2045)
    (hlarge : num = 0 ∨ 2 ^ (g + 52) * den ≤ num) (negative : Bool)
    (hfinite : (ofUnits negative num' den').isFinite = true) :
    Doubled j g (ofUnits negative num den) (ofUnits negative num' den') := by
  have hfull : num = 0 ∨ 2 ^ 52 * den ≤ num := by
    refine hlarge.imp_right fun hle => le_trans (Nat.mul_le_mul_right den ?_) hle
    exact Nat.pow_le_pow_right two_pos (Nat.le_add_left 52 g)
  obtain ⟨hfinite', hunits⟩ := units_ofUnits_of_mul_eq hden hden' heq hfull negative hfinite
  refine ⟨hfinite', hfinite, rfl, hunits, two_pow_dvd_units ?_⟩
  rcases hlarge with rfl | hle
  · have hzero : (0 : Nat) ≤ 0 * den := Nat.zero_le _
    have hsize := (units_ofUnits_le ⟨0, by decide, rfl⟩ hden hzero negative).2
    exact .inl (Nat.le_zero.mp hsize)
  · exact .inr (le_units_ofUnits (isSize_two_pow (by omega)) hden hle negative)

namespace Doubled

theorem add (hx : Doubled j g x y) (hx' : Doubled j g x' y') (hg : 52 ≤ g)
    (hfinite : (y + y').isFinite = true) : Doubled j g (x + x') (y + y') := by
  have hsum : y.signedUnits + y'.signedUnits = 2 ^ j * (x.signedUnits + x'.signedUnits) := by
    rw [hx.signedUnits_eq, hx'.signedUnits_eq]
    ring
  have hdvd {z w : Binary64} (h : Doubled j g z w) : (2 ^ g : Int) ∣ z.signedUnits := by
    have := Int.natCast_dvd_natCast.mpr h.dvd_units
    rwa [← natAbs_signedUnits, Int.dvd_natAbs, Nat.cast_pow] at this
  have hsumdvd := Int.dvd_add (hdvd hx) (hdvd hx')
  rw [add_of_isFinite hx.isFinite_right hx'.isFinite_right, hsum, hx.negative_eq,
    hx'.negative_eq] at hfinite ⊢
  rw [add_of_isFinite hx.isFinite hx'.isFinite]
  generalize x.signedUnits + x'.signedUnits = n at hfinite hsumdvd ⊢
  have hpow : (0 : Int) < 2 ^ j := by positivity
  unfold ofSignedUnits at hfinite ⊢
  by_cases hzero : n = 0
  · rw [if_pos hzero, if_pos (by rw [hzero, mul_zero])]
    exact ⟨(within_zero 0 _).isFinite, (within_zero 0 _).isFinite, rfl, rfl, dvd_zero _⟩
  · have hne : 2 ^ j * n ≠ 0 := mul_ne_zero hpow.ne' hzero
    have hsign : decide (2 ^ j * n < 0) = decide (n < 0) := by
      rw [decide_eq_decide]
      constructor
      · intro hneg
        by_contra hnonneg
        exact Int.not_lt.mpr (Int.mul_nonneg hpow.le (Int.not_lt.mp hnonneg)) hneg
      · exact Int.mul_neg_of_pos_of_neg hpow
    have habs : (2 ^ j * n).natAbs = 2 ^ j * n.natAbs := by
      rw [Int.natAbs_mul, Int.natAbs_pow]
      rfl
    rw [if_neg hne, hsign, habs] at hfinite ⊢
    rw [if_neg hzero]
    have hnat : 2 ^ g ∣ n.natAbs := by
      have := Int.natAbs_dvd_natAbs.mpr hsumdvd
      rwa [Int.natAbs_pow] at this
    have hfull : 2 ^ 52 * 1 ≤ n.natAbs :=
      (Nat.pow_le_pow_right two_pos hg).trans (Nat.le_of_dvd (Int.natAbs_pos.mpr hzero) hnat)
    have hdouble : 2 ^ j * n.natAbs * 1 = 2 ^ j * n.natAbs * 1 := rfl
    obtain ⟨hfinite', hunits⟩ :=
      units_ofUnits_of_mul_eq one_pos one_pos hdouble (.inr hfull) _ hfinite
    exact ⟨hfinite', hfinite, rfl, hunits, two_pow_dvd_units_ofUnits hnat _ hfinite'⟩

theorem sub (hx : Doubled j g x y) (hx' : Doubled j g x' y') (hg : 52 ≤ g)
    (hfinite : (y - y').isFinite = true) : Doubled j g (x - x') (y - y') :=
  hx.add hx'.neg hg hfinite

/-- A product of numbers that are not too small. -/
theorem mul (hx : Doubled j g x y) (hx' : Doubled j' g' x' y') {e : Nat} (he : e ≤ 2045)
    (hlarge : x.units * x'.units = 0 ∨ 2 ^ (e + 52) * unitsPerOne ≤ x.units * x'.units)
    (hfinite : (y * y').isFinite = true) : Doubled (j + j') e (x * x') (y * y') := by
  rw [mul_of_isFinite hx.isFinite_right hx'.isFinite_right, hx.negative_eq,
    hx'.negative_eq] at hfinite ⊢
  rw [mul_of_isFinite hx.isFinite hx'.isFinite]
  refine doubled_ofUnits unitsPerOne_pos unitsPerOne_pos ?_ he hlarge _ hfinite
  rw [hx.units_eq, hx'.units_eq, pow_add]
  ring

/-- The same with what the factors are multiples of. -/
theorem mul_of_dvd (hx : Doubled j g x y) (hx' : Doubled j' g' x' y') {e : Nat}
    (he : e + 52 + 1074 = g + g') (hg : e ≤ 2045) (hfinite : (y * y').isFinite = true) :
    Doubled (j + j') e (x * x') (y * y') := by
  refine hx.mul hx' hg ?_ hfinite
  rcases Nat.eq_zero_or_pos (x.units * x'.units) with hzero | hpos
  · exact .inl hzero
  · right
    have hdvd := Nat.mul_dvd_mul hx.dvd_units hx'.dvd_units
    rw [unitsPerOne_eq, ← pow_add, he, pow_add]
    exact Nat.le_of_dvd hpos hdvd

/-- Quotients, where one divisor is not too large for the dividend. -/
theorem div (hxfinite : x.isFinite = true) (hyfinite : y.isFinite = true)
    (hsign : y.negative = x.negative) (hx' : x'.isFinite = true) (hy' : y'.isFinite = true)
    (hpos : 0 < x'.units) (hpos' : 0 < y'.units) (hsign' : y'.negative = x'.negative)
    (heq : y.units * x'.units = 2 ^ j * x.units * y'.units) (hg : g ≤ 2045)
    (hlarge : x.units = 0 ∨ 2 ^ (g + 52) * x'.units ≤ x.units * unitsPerOne)
    (hfinite : (y / y').isFinite = true) : Doubled j g (x / x') (y / y') := by
  rw [div_of_isFinite hyfinite hy' (magnitude_ne_zero hy' hpos'), hsign, hsign'] at hfinite ⊢
  rw [div_of_isFinite hxfinite hx' (magnitude_ne_zero hx' hpos)]
  refine doubled_ofUnits hpos hpos' ?_ hg ?_ _ hfinite
  · calc y.units * unitsPerOne * x'.units = y.units * x'.units * unitsPerOne := by ring
      _ = 2 ^ j * (x.units * unitsPerOne) * y'.units := by rw [heq]; ring
  · exact hlarge.imp_left fun hzero => by rw [hzero, Nat.zero_mul]

/-- Quotients of numbers that are doubled equally often are the same. -/
theorem div_eq (hx : Doubled j g x y) (hx' : Doubled j g' x' y') (hpos : 0 < x'.units) :
    y / y' = x / x' := by
  have hpos' : 0 < y'.units := Nat.pos_of_ne_zero fun hzero =>
    hpos.ne' (hx'.units_eq_zero_iff_right.mp hzero)
  rw [div_of_isFinite hx.isFinite_right hx'.isFinite_right (magnitude_ne_zero hx'.isFinite_right hpos'),
    div_of_isFinite hx.isFinite hx'.isFinite (magnitude_ne_zero hx'.isFinite hpos), hx.negative_eq,
    hx'.negative_eq]
  apply ofUnits_congr hpos' hpos
  rw [hx.units_eq, hx'.units_eq]
  ring

end Doubled

/-! ### Square roots -/

/-- A number between two integers is rounded in the same way wherever it lies between them, once
they have more places than are kept. -/
theorem roundMagnitude_of_between {m num den : Nat} (hm : 2 ^ 53 ≤ m) (hlo : m * den < num)
    (hhi : num < (m + 1) * den) :
    ∃ t, m.log2 - 52 = t + 1 ∧ roundMagnitude num den = Min.min infinityMagnitude
      ((t + 1) * 2 ^ 52 + (m + 2 ^ t) / 2 ^ (t + 1)) := by
  have hden : 0 < den := by
    rcases Nat.eq_zero_or_pos den with rfl | hpos
    · omega
    · exact hpos
  have hquotient : num / den = m := Nat.div_eq_of_lt_le hlo.le hhi
  have hlog : 53 ≤ m.log2 := (Nat.le_log2 (by omega)).mpr hm
  obtain ⟨t, ht⟩ : ∃ t, m.log2 - 52 = t + 1 := ⟨m.log2 - 53, by omega⟩
  have hshift : shiftOf num den = t + 1 := by rw [shiftOf, hquotient, ht]
  refine ⟨t, ht, ?_⟩
  rw [roundMagnitude_eq, hshift]
  congr 2
  have hpow : 2 ^ (t + 1) = 2 * 2 ^ t := by rw [pow_succ, Nat.mul_comm]
  have hdiv := Nat.div_add_mod' (m + 2 ^ t) (2 ^ (t + 1))
  have hmod := Nat.mod_lt (m + 2 ^ t) (Nat.two_pow_pos (t + 1))
  -- With `k` steps, `m` lies from half a step below to less than half a step above.
  generalize (m + 2 ^ t) / 2 ^ (t + 1) = k at hdiv ⊢
  rw [hpow] at hdiv hmod ⊢
  have hk : k * (2 * 2 ^ t) = 2 * (k * 2 ^ t) := by ring
  apply Nat.le_antisymm
  · refine nearest_le_of_lt (by positivity) ?_
    calc 2 * num < 2 * ((m + 1) * den) := by omega
      _ ≤ 2 * ((2 * k + 1) * 2 ^ t * den) := by
          refine Nat.mul_le_mul_left 2 (Nat.mul_le_mul_right den ?_)
          rw [Nat.add_mul, Nat.mul_assoc]
          omega
      _ = (2 * k + 1) * (den * (2 * 2 ^ t)) := by ring
  · rcases Nat.eq_zero_or_pos k with rfl | hpos
    · exact Nat.zero_le _
    · obtain ⟨k, rfl⟩ := Nat.exists_eq_add_one_of_ne_zero hpos.ne'
      refine lt_nearest_of_lt (by positivity) ?_
      have hsucc : (k + 1) * 2 ^ t = k * 2 ^ t + 2 ^ t := Nat.succ_mul _ _
      calc (2 * k + 1) * (den * (2 * 2 ^ t)) = 2 * ((2 * k + 1) * 2 ^ t * den) := by ring
        _ ≤ 2 * (m * den) := by
            refine Nat.mul_le_mul_left 2 (Nat.mul_le_mul_right den ?_)
            rw [Nat.add_mul, Nat.mul_assoc]
            omega
        _ < 2 * num := by omega

theorem roundMagnitude_eq_of_between {m num den num' den' : Nat} (hm : 2 ^ 53 ≤ m)
    (hlo : m * den < num) (hhi : num < (m + 1) * den) (hlo' : m * den' < num')
    (hhi' : num' < (m + 1) * den') : roundMagnitude num den = roundMagnitude num' den' := by
  obtain ⟨t, ht, hround⟩ := roundMagnitude_of_between hm hlo hhi
  obtain ⟨t', ht', hround'⟩ := roundMagnitude_of_between hm hlo' hhi'
  obtain rfl : t' = t := by omega
  rw [hround, hround']

/-- Twice the whole root, and one more if that is not exact. -/
def rootInHalves (n : Nat) : Nat :=
  2 * Nat.sqrt n + if Nat.sqrt n * Nat.sqrt n = n then 0 else 1

theorem sqrt_of_pos (hfinite : x.isFinite = true) (hsign : x.negative = false)
    (hpos : 0 < x.units) :
    sqrt x = ofUnits false (rootInHalves (x.units * unitsPerOne)) 2 := by
  have hzero : x.isZero = false := by
    rw [Bool.eq_false_iff, Ne, isZero_iff, ← units_eq_zero_iff hfinite]
    exact hpos.ne'
  rw [sqrt, isNaN_eq_false hfinite, hzero, hsign, isInfinite_eq_false hfinite]
  simp only [Bool.or_self, Bool.false_eq_true, if_false, natSqrt_eq]
  rfl

/-- The root of a number that is doubled an even number of times. -/
theorem rootInHalves_spec {n : Nat} (hn : 2 ^ 53 * 2 ^ 53 ≤ n) (j : Nat) :
    2 ^ 52 * (2 * 2 ^ j) ≤ rootInHalves ((2 ^ j * 2 ^ j) * n) ∧
      roundMagnitude (rootInHalves ((2 ^ j * 2 ^ j) * n)) (2 * 2 ^ j) =
        roundMagnitude (rootInHalves n) 2 := by
  have hroot : 2 ^ 53 ≤ Nat.sqrt n := Nat.le_sqrt.mpr hn
  have hpow : 0 < 2 ^ j := Nat.two_pow_pos j
  by_cases hexact : Nat.sqrt n * Nat.sqrt n = n
  · -- The doubled number has the doubled root.
    have hsquare : 2 ^ j * 2 ^ j * n = 2 ^ j * Nat.sqrt n * (2 ^ j * Nat.sqrt n) := by
      rw [Nat.mul_mul_mul_comm, hexact]
    have hdoubled : rootInHalves (2 ^ j * 2 ^ j * n) = 2 * (2 ^ j * Nat.sqrt n) := by
      rw [rootInHalves, hsquare, Nat.sqrt_eq, if_pos rfl, Nat.add_zero]
    have hplain : rootInHalves n = 2 * Nat.sqrt n := by
      rw [rootInHalves, if_pos hexact, Nat.add_zero]
    rw [hdoubled, hplain]
    refine ⟨?_, roundMagnitude_congr (by positivity) two_pos (by ring)⟩
    calc 2 ^ 52 * (2 * 2 ^ j) = 2 * (2 ^ j * 2 ^ 52) := by ring
      _ ≤ 2 * (2 ^ j * Nat.sqrt n) := by gcongr; omega
  · -- Both roots lie between the same two integers, in units of the doubled ones.
    generalize hr : Nat.sqrt n = r at hroot hexact
    have hle : r * r ≤ n := hr ▸ Nat.sqrt_le n
    have hlt : n < (r + 1) * (r + 1) := hr ▸ Nat.lt_succ_sqrt n
    have hplain : rootInHalves n = 2 * r + 1 := by rw [rootInHalves, hr, if_neg hexact]
    have hlo : r * (2 * 2 ^ j) < rootInHalves (2 ^ j * 2 ^ j * n) := by
      have hsquare : 2 ^ j * r * (2 ^ j * r) < 2 ^ j * 2 ^ j * n := by
        rw [Nat.mul_mul_mul_comm]
        exact Nat.mul_lt_mul_of_pos_left (by omega) (by positivity)
      have hfloor : 2 ^ j * r ≤ Nat.sqrt (2 ^ j * 2 ^ j * n) := Nat.le_sqrt.mpr hsquare.le
      have hcomm : r * (2 * 2 ^ j) = 2 * (2 ^ j * r) := by ring
      rw [hcomm, rootInHalves]
      split
      · next hdoubled =>
        have hne : 2 ^ j * r ≠ Nat.sqrt (2 ^ j * 2 ^ j * n) := by
          intro heq
          rw [← heq] at hdoubled
          exact hsquare.ne hdoubled
        omega
      · omega
    have hhi : rootInHalves (2 ^ j * 2 ^ j * n) < (r + 1) * (2 * 2 ^ j) := by
      have hceiling : Nat.sqrt (2 ^ j * 2 ^ j * n) < 2 ^ j * (r + 1) := by
        rw [Nat.sqrt_lt, Nat.mul_mul_mul_comm]
        exact Nat.mul_lt_mul_of_pos_left hlt (by positivity)
      have hcomm : (r + 1) * (2 * 2 ^ j) = 2 * (2 ^ j * (r + 1)) := by ring
      rw [hcomm, rootInHalves]
      split <;> omega
    refine ⟨(Nat.mul_le_mul_right _ (by omega)).trans hlo.le, ?_⟩
    rw [hplain]
    exact roundMagnitude_eq_of_between hroot hlo hhi (by omega) (by omega)

theorem Doubled.sqrt (h : Doubled (j + j) g x y) (hsign : x.negative = false) (hpos : 0 < x.units)
    (hfinite : (sqrt y).isFinite = true) : Doubled j 0 (sqrt x) (sqrt y) := by
  have hpow : 0 < 2 ^ j := Nat.two_pow_pos j
  have hunits : y.units = 2 ^ j * 2 ^ j * x.units := by rw [h.units_eq, pow_add]
  have hypos : 0 < y.units := by
    rw [hunits]
    positivity
  have hone : 2 ^ 53 * 2 ^ 53 ≤ unitsPerOne := by decide +kernel
  have hlarge : 2 ^ 53 * 2 ^ 53 ≤ x.units * unitsPerOne :=
    hone.trans (Nat.le_mul_of_pos_left _ hpos)
  have hsquare : y.units * unitsPerOne = 2 ^ j * 2 ^ j * (x.units * unitsPerOne) := by
    rw [hunits, Nat.mul_assoc]
  obtain ⟨hfull, hround⟩ := rootInHalves_spec hlarge j
  rw [← hsquare] at hfull hround
  rw [sqrt_of_pos h.isFinite_right (h.negative_eq.trans hsign) hypos] at hfinite ⊢
  rw [sqrt_of_pos h.isFinite hsign hpos]
  have hdouble (r : Nat) : r * (2 * 2 ^ j) = 2 ^ j * r * 2 := by ring
  obtain ⟨hfinite', heq⟩ := units_ofUnits_of_mul_eq (Nat.mul_pos two_pos hpow) two_pos
    (hdouble _) (.inr hfull) false hfinite
  -- Of the rounded numbers only the magnitude is left to compare.
  have hsame : ofUnits false (rootInHalves (y.units * unitsPerOne)) (2 * 2 ^ j) =
      ofUnits false (rootInHalves (x.units * unitsPerOne)) 2 := by
    simp only [ofUnits, hround]
  rw [hsame] at hfinite' heq
  exact ⟨hfinite', hfinite, by rw [negative_ofUnits, negative_ofUnits], heq, one_dvd _⟩

end DramTiming.Binary64
