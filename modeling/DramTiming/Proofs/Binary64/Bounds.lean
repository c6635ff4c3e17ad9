import DramTiming.Binary64.Order
import DramTiming.Proofs.Binary64.Rounding

/-!
# Bounds of computed numbers

`Within n x` says that `x` is finite and its size at most `n`.  Each operation takes bounds of its
operands to a bound of its result, if that bound is itself a double: the exact result is within it,
and rounding does not leave it.  What is not finite stays so, or becomes a not-a-number value.
-/

namespace DramTiming.Binary64

variable {x y : Binary64} {a b n : Nat}

/-! ### Kinds of numbers -/

theorem isFinite_iff : x.isFinite = true ↔ x.magnitude < infinityMagnitude := decide_eq_true_iff

theorem isInfinite_iff : x.isInfinite = true ↔ x.magnitude = infinityMagnitude :=
  decide_eq_true_iff

theorem isNaN_iff : x.isNaN = true ↔ infinityMagnitude < x.magnitude := decide_eq_true_iff

theorem isZero_iff : x.isZero = true ↔ x.magnitude = 0 := decide_eq_true_iff

theorem magnitude_le_infinityMagnitude (hx : x.isNaN = false) :
    x.magnitude ≤ infinityMagnitude := by
  rw [Bool.eq_false_iff, Ne, isNaN_iff] at hx
  exact Nat.not_lt.mp hx

theorem isNaN_eq_false (h : x.isFinite = true) : x.isNaN = false := by
  rw [isFinite_iff] at h
  rw [Bool.eq_false_iff, Ne, isNaN_iff]
  omega

theorem isInfinite_eq_false (h : x.isFinite = true) : x.isInfinite = false := by
  rw [isFinite_iff] at h
  rw [Bool.eq_false_iff, Ne, isInfinite_iff]
  omega

theorem isNaN_eq_false_of_isInfinite (h : x.isInfinite = true) : x.isNaN = false := by
  rw [isInfinite_iff] at h
  rw [Bool.eq_false_iff, Ne, isNaN_iff]
  omega

theorem isFinite_of_not_isNaN_of_not_isInfinite (h : x.isNaN = false)
    (h' : ¬ x.isInfinite = true) : x.isFinite = true := by
  rw [isInfinite_iff] at h'
  rw [Bool.eq_false_iff, Ne, isNaN_iff] at h
  rw [isFinite_iff]
  omega

theorem isNaN_or_isInfinite_of_not_isFinite (h : ¬ x.isFinite = true) :
    x.isNaN = true ∨ x.isInfinite = true := by
  rw [isFinite_iff] at h
  rw [isNaN_iff, isInfinite_iff]
  omega

theorem not_isFinite_of_isNaN (h : x.isNaN = true) : ¬ x.isFinite = true := by
  rw [isNaN_iff] at h
  rw [isFinite_iff]
  omega

theorem not_isFinite_of_isInfinite (h : x.isInfinite = true) : ¬ x.isFinite = true := by
  rw [isInfinite_iff] at h
  rw [isFinite_iff]
  omega

/-- An infinity is the one with its sign. -/
theorem eq_infinity (h : x.isInfinite = true) : x = infinity x.negative := by
  obtain ⟨negative, magnitude, hlt⟩ := x
  rw [isInfinite_iff] at h
  subst h
  rfl

theorem unitsPerOne_eq : unitsPerOne = 2 ^ 1074 := by decide +kernel

theorem unitsPerOne_pos : 0 < unitsPerOne := by
  rw [unitsPerOne_eq]
  exact pow_pos two_pos 1074

theorem units_eq_zero_iff (h : x.isFinite = true) : x.units = 0 ↔ x.magnitude = 0 := by
  have hzero : unitsOf 0 = 0 := rfl
  rw [isFinite_iff] at h
  rw [units, ← Nat.le_zero, ← Nat.le_zero, ← unitsOf_le_unitsOf_iff h.le (Nat.zero_le _), hzero]

/-- Among finite numbers, the larger magnitude has more units. -/
theorem units_le_units_iff (hx : x.isFinite = true) (hy : y.isFinite = true) :
    x.units ≤ y.units ↔ x.magnitude ≤ y.magnitude :=
  unitsOf_le_unitsOf_iff (isFinite_iff.mp hx).le (isFinite_iff.mp hy).le

theorem natAbs_signedUnits (x : Binary64) : x.signedUnits.natAbs = x.units := by
  unfold signedUnits
  split <;> simp

theorem signedUnits_of_negative (h : x.negative = true) : x.signedUnits = -(x.units : Int) := by
  rw [signedUnits, if_pos h]

theorem signedUnits_of_not_negative (h : x.negative = false) : x.signedUnits = x.units := by
  rw [signedUnits, if_neg (by simp [h])]

/-! ### Not-a-number values -/

theorem isNaN_nan : nan.isNaN = true := by decide

theorem isNaN_add (h : x.isNaN = true ∨ y.isNaN = true) : (x + y).isNaN = true := by
  show (add x y).isNaN = true
  rw [add, if_pos (by simpa using h)]
  exact isNaN_nan

theorem isNaN_sub (h : x.isNaN = true ∨ y.isNaN = true) : (x - y).isNaN = true :=
  isNaN_add (y := neg y) h

theorem isNaN_mul (h : x.isNaN = true ∨ y.isNaN = true) : (x * y).isNaN = true := by
  show (mul x y).isNaN = true
  rw [mul, if_pos (by simpa using h)]
  exact isNaN_nan

theorem isNaN_div (h : x.isNaN = true ∨ y.isNaN = true) : (x / y).isNaN = true := by
  show (div x y).isNaN = true
  rw [div, if_pos (by simpa using h)]
  exact isNaN_nan

theorem sqrt_eq_self_of_isNaN (h : x.isNaN = true) : sqrt x = x := by
  rw [sqrt, h]
  rfl

/-! ### Exact results -/

theorem add_of_isFinite (hx : x.isFinite = true) (hy : y.isFinite = true) :
    x + y = ofSignedUnits (x.negative && y.negative) (x.signedUnits + y.signedUnits) := by
  show add x y = _
  rw [add, isNaN_eq_false hx, isNaN_eq_false hy, isInfinite_eq_false hx, isInfinite_eq_false hy]
  rfl

theorem mul_of_isFinite (hx : x.isFinite = true) (hy : y.isFinite = true) :
    x * y = ofUnits (x.negative != y.negative) (x.units * y.units) unitsPerOne := by
  show mul x y = _
  rw [mul, isNaN_eq_false hx, isNaN_eq_false hy, isInfinite_eq_false hx, isInfinite_eq_false hy]
  rfl

/-- The order of the factors makes no difference, not even to signs of zero. -/
protected theorem mul_comm (x y : Binary64) : x * y = y * x := by
  have hinfinite {z : Binary64} (hz : z.isInfinite = true) : z.isZero = false := by
    rw [Bool.eq_false_iff, Ne, isZero_iff, isInfinite_iff.mp hz]
    decide
  show mul x y = mul y x
  rw [mul, mul, Bool.or_comm, bne_comm, Nat.mul_comm]
  by_cases hx : x.isInfinite = true <;> by_cases hy : y.isInfinite = true
  · simp [hx, hy, hinfinite hx, hinfinite hy]
  · simp [hx, hy]
  · simp [hx, hy]
  · simp [hx, hy]

/-- A smaller positive number taken from a larger one. -/
theorem sub_of_lt (hx : x.isFinite = true) (hy : y.isFinite = true) (hxsign : x.negative = false)
    (hysign : y.negative = false) (hlt : y.units < x.units) :
    x - y = ofUnits false (x.units - y.units) 1 := by
  have hneg : (-y).isFinite = true := hy
  have hnegsign : (-y).negative = true := by
    show (!y.negative) = true
    rw [hysign]
    rfl
  have hnegunits : (-y).units = y.units := rfl
  show x + -y = _
  rw [add_of_isFinite hx hneg, signedUnits_of_not_negative hxsign,
    signedUnits_of_negative hnegsign, hnegunits, ofSignedUnits, if_neg (by omega),
    decide_eq_false (by omega)]
  congr 1
  omega

/-! ### Results that are not finite -/

theorem not_isFinite_div (h : ¬ x.isFinite = true) (y : Binary64) : ¬ (x / y).isFinite = true := by
  rcases isNaN_or_isInfinite_of_not_isFinite h with hnan | hinf
  · exact not_isFinite_of_isNaN (isNaN_div (.inl hnan))
  · by_cases hy : y.isNaN = true
    · exact not_isFinite_of_isNaN (isNaN_div (.inr hy))
    · show ¬ (div x y).isFinite = true
      rw [div, if_neg (by simp [isNaN_eq_false_of_isInfinite hinf, hy]), if_pos hinf]
      split
      · decide
      · exact Nat.lt_irrefl _ ∘ isFinite_iff.mp

/-- A sum with an infinite operand is that infinity, or has no value. -/
theorem infinite_add (h : x.isInfinite = true) : x + y = x ∨ x + y = nan := by
  show add x y = x ∨ add x y = nan
  rw [add, isNaN_eq_false_of_isInfinite h, h]
  by_cases hnan : y.isNaN = true
  · exact .inr (by simp [hnan])
  · cases y.isInfinite && x.negative != y.negative
    · exact .inl (by simp [hnan])
    · exact .inr (by simp [hnan])

theorem add_infinite (h : y.isInfinite = true) : x + y = y ∨ x + y = nan := by
  show add x y = y ∨ add x y = nan
  rw [add, isNaN_eq_false_of_isInfinite h, h]
  by_cases hnan : x.isNaN = true
  · exact .inr (by simp [hnan])
  · by_cases hinf : x.isInfinite = true
    · by_cases hsign : x.negative = y.negative
      · refine .inl ?_
        rw [eq_infinity hinf, eq_infinity h, hsign]
        simp [infinity, isNaN, isInfinite]
      · exact .inr (by simp [hnan, hinf, hsign])
    · exact .inl (by simp [hnan, hinf])

theorem infinity_sub_infinity (negative : Bool) : infinity negative - infinity negative = nan := by
  cases negative <;> decide

/-- An infinity divided by something finite and positive stays what it is. -/
theorem infinite_div (h : x.isInfinite = true) (hy : y.isFinite = true)
    (hpos : y.negative = false) : x / y = x := by
  show div x y = x
  rw [div, isNaN_eq_false_of_isInfinite h, isNaN_eq_false hy, h, isInfinite_eq_false hy, hpos]
  simp only [Bool.or_self, Bool.false_eq_true, if_false, if_true, Bool.bne_false]
  exact (eq_infinity h).symm

theorem infinite_div_infinite (hx : x.isInfinite = true) (hy : y.isInfinite = true) :
    x / y = nan := by
  show div x y = nan
  rw [div, isNaN_eq_false_of_isInfinite hx, isNaN_eq_false_of_isInfinite hy, hx, hy]
  rfl

/-- A finite number multiplied by an infinity. -/
theorem mul_of_isInfinite (hx : x.isFinite = true) (hy : y.isInfinite = true) :
    x * y = if x.isZero then nan else infinity (x.negative != y.negative) := by
  show mul x y = _
  rw [mul, isNaN_eq_false hx, isNaN_eq_false_of_isInfinite hy, isInfinite_eq_false hx, hy]
  rfl

/-- Numbers without a minus sign have no quotient with one. -/
theorem negative_div (hx : x.negative = false) (hy : y.negative = false) :
    (x / y).negative = false := by
  show (div x y).negative = false
  rw [div, hx, hy]
  repeat' split
  all_goals rfl

/-! ### Sizes of representable numbers -/

theorem isNaN_ofUnits (negative : Bool) (num den : Nat) :
    (ofUnits negative num den).isNaN = false := by
  rw [Bool.eq_false_iff, Ne, isNaN_iff]
  exact Nat.not_lt.mpr (Nat.min_le_left _ _)

theorem ofUnits_of_isSize (h : IsSize n) (negative : Bool) :
    (ofUnits negative n 1).isFinite = true ∧ (ofUnits negative n 1).units = n := by
  obtain ⟨m, hm, rfl⟩ := h
  have hround : (ofUnits negative (unitsOf m) 1).magnitude = m := by
    show roundMagnitude (unitsOf m) 1 = m
    have hexact := roundMagnitude_unitsOf one_pos m
    rwa [Nat.mul_one, Nat.min_eq_right hm.le] at hexact
  exact ⟨isFinite_iff.mpr (by rw [hround]; exact hm), by rw [units, hround]⟩

/-- A number that is at least as large as a size is so after rounding. -/
theorem le_units_ofUnits {num den : Nat} (hn : IsSize n) (hden : 0 < den) (h : n * den ≤ num)
    (negative : Bool) : n ≤ (ofUnits negative num den).units := by
  obtain ⟨m, hm, rfl⟩ := hn
  have hround : m ≤ roundMagnitude num den := le_roundMagnitude_of_le hden hm.le h
  exact (unitsOf_le_unitsOf_iff hm.le (Nat.min_le_left _ _)).mpr hround

/-- A number that is at most as large as a size is so after rounding. -/
theorem units_ofUnits_le {num den : Nat} (hn : IsSize n) (hden : 0 < den) (h : num ≤ n * den)
    (negative : Bool) :
    (ofUnits negative num den).isFinite = true ∧ (ofUnits negative num den).units ≤ n := by
  obtain ⟨m, hm, rfl⟩ := hn
  have hround : roundMagnitude num den ≤ m := roundMagnitude_le_of_le hden h
  exact ⟨isFinite_iff.mpr (Nat.lt_of_le_of_lt hround hm),
    (unitsOf_le_unitsOf_iff (hround.trans hm.le) hm.le).mpr hround⟩

/-! ### Finite results -/

/-- The whole number `n` is a double. -/
def IsWhole (n : Nat) : Prop := IsSize (n * unitsPerOne)

theorem isWhole_mul_two_pow {k e : Nat} (hk : k ≤ 2 ^ 53) (he : e ≤ 970) : IsWhole (k * 2 ^ e) := by
  have hunits : k * 2 ^ e * unitsPerOne = k * 2 ^ (e + 1074) := by
    rw [unitsPerOne_eq, mul_assoc, ← pow_add]
  rw [IsWhole, hunits]
  exact isSize_mul_two_pow hk (by omega)

theorem isWhole_of_le (h : n ≤ 2 ^ 53) : IsWhole n := by
  have := isWhole_mul_two_pow (e := 0) h (by decide)
  rwa [pow_zero, mul_one] at this

theorem isWhole_two_pow {e : Nat} (h : e ≤ 970) : IsWhole (2 ^ e) := by
  have := isWhole_mul_two_pow (k := 1) (by decide) h
  rwa [one_mul] at this

/-- `x` is finite, and its size is at most `n`. -/
structure Within (n : Nat) (x : Binary64) : Prop where
  isFinite : x.isFinite = true
  units_le : x.units ≤ n * unitsPerOne

theorem within_zero (n : Nat) (negative : Bool) : Within n (zero negative) :=
  ⟨by cases negative <;> decide, Nat.zero_le _⟩

theorem within_ofUnits {num den : Nat} (hn : IsWhole n) (hden : 0 < den)
    (h : num ≤ n * unitsPerOne * den) (negative : Bool) : Within n (ofUnits negative num den) :=
  have hround := units_ofUnits_le hn hden h negative
  ⟨hround.1, hround.2⟩

theorem within_ofNat {k m : Nat} (hk : IsWhole k) (h : m ≤ k) : Within k (ofNat m) := by
  refine within_ofUnits hk one_pos ?_ false
  rw [Nat.mul_one]
  exact Nat.mul_le_mul_right _ h

theorem le_units_ofNat {k m : Nat} (hk : IsWhole k) (h : k ≤ m) :
    k * unitsPerOne ≤ (ofNat m).units := by
  refine le_units_ofUnits hk one_pos ?_ false
  rw [Nat.mul_one]
  exact Nat.mul_le_mul_right _ h

theorem ofNat_of_isWhole (h : IsWhole n) :
    (ofNat n).isFinite = true ∧ (ofNat n).units = n * unitsPerOne := ofUnits_of_isSize h false

/-! ### Zero and one -/

theorem isNaN_zero : (0 : Binary64).isNaN = false := isNaN_ofUnits false _ 1

theorem isNaN_one : (1 : Binary64).isNaN = false := isNaN_ofUnits false _ 1

theorem zero_eq : (0 : Binary64) = zero false := by
  show ofNat 0 = zero false
  rw [ofNat, Nat.zero_mul]
  rfl

theorem one_spec : (1 : Binary64).negative = false ∧ (1 : Binary64).isFinite = true ∧
    (1 : Binary64).units = unitsPerOne := by
  obtain ⟨hfinite, hunits⟩ := ofNat_of_isWhole (isWhole_of_le (n := 1) (by decide))
  rw [Nat.one_mul] at hunits
  exact ⟨rfl, hfinite, hunits⟩

theorem magnitude_one_ne_zero : (1 : Binary64).magnitude ≠ 0 := by
  obtain ⟨-, hfinite, hunits⟩ := one_spec
  rw [Ne, ← units_eq_zero_iff hfinite, hunits]
  exact unitsPerOne_pos.ne'

/-! ### Sums, products and quotients -/

theorem Within.neg (h : Within n x) : Within n (-x) := ⟨h.isFinite, h.units_le⟩

theorem Within.add (hx : Within a x) (hy : Within b y) (hab : IsWhole (a + b)) :
    Within (a + b) (x + y) := by
  rw [add_of_isFinite hx.isFinite hy.isFinite, ofSignedUnits]
  split
  · exact within_zero _ _
  · refine within_ofUnits hab one_pos ?_ _
    have htriangle := Int.natAbs_add_le x.signedUnits y.signedUnits
    rw [natAbs_signedUnits, natAbs_signedUnits] at htriangle
    calc (x.signedUnits + y.signedUnits).natAbs ≤ x.units + y.units := htriangle
      _ ≤ a * unitsPerOne + b * unitsPerOne := Nat.add_le_add hx.units_le hy.units_le
      _ = (a + b) * unitsPerOne * 1 := by ring

theorem Within.sub (hx : Within a x) (hy : Within b y) (hab : IsWhole (a + b)) :
    Within (a + b) (x - y) := hx.add hy.neg hab

theorem Within.mul (hx : Within a x) (hy : Within b y) (hab : IsWhole (a * b)) :
    Within (a * b) (x * y) := by
  rw [mul_of_isFinite hx.isFinite hy.isFinite]
  refine within_ofUnits hab unitsPerOne_pos ?_ _
  calc x.units * y.units ≤ a * unitsPerOne * (b * unitsPerOne) :=
        Nat.mul_le_mul hx.units_le hy.units_le
    _ = a * b * unitsPerOne * unitsPerOne := by ring

/-- A quotient is bounded by `n` if the dividend is at most `n` times the divisor, or the divisor
is infinite. -/
theorem within_div (hx : x.isFinite = true) (hy : y.isNaN = false) (hne : y.magnitude ≠ 0)
    (h : y.isFinite = true → x.units ≤ n * y.units) (hn : IsWhole n) : Within n (x / y) := by
  show Within n (div x y)
  have hzero : y.isZero = false := by
    rw [Bool.eq_false_iff, Ne, isZero_iff]
    exact hne
  rw [div, isNaN_eq_false hx, hy, isInfinite_eq_false hx, hzero]
  simp only [Bool.or_self, Bool.false_eq_true, if_false]
  -- What is left are an infinite divisor, which gives zero, and a finite one that is not zero.
  split
  · exact within_zero _ _
  · next hinf =>
    have hfinite : y.isFinite = true := isFinite_of_not_isNaN_of_not_isInfinite hy hinf
    have hpos : 0 < y.units := Nat.pos_of_ne_zero fun h => hne ((units_eq_zero_iff hfinite).mp h)
    refine within_ofUnits hn hpos ?_ _
    calc x.units * unitsPerOne ≤ n * y.units * unitsPerOne := Nat.mul_le_mul_right _ (h hfinite)
      _ = n * unitsPerOne * y.units := by ring

/-- A finite number divided by one that is not zero has a value. -/
theorem isNaN_div_eq_false (hx : x.isFinite = true) (hy : y.isNaN = false)
    (hne : y.magnitude ≠ 0) : (x / y).isNaN = false := by
  show (div x y).isNaN = false
  have hzero : y.isZero = false := by
    rw [Bool.eq_false_iff, Ne, isZero_iff]
    exact hne
  rw [div, isNaN_eq_false hx, hy, isInfinite_eq_false hx, hzero]
  simp only [Bool.or_self, Bool.false_eq_true, if_false]
  split
  · exact isNaN_eq_false (within_zero 0 _).isFinite
  · exact isNaN_ofUnits _ _ _

end DramTiming.Binary64
