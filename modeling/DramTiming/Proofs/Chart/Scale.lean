import DramTiming.Chart.SymLog
import DramTiming.Proofs.Binary64.Monotone

/-!
# The scale of rounded numbers

A scale never changes the order of two values, although it is computed with rounded quotients and
logarithms and its two pieces are joined at the threshold (`SymLog.forwardWith_spec`).  Nothing has
to be known of the logarithm but that it grows from one on, where it is zero; the computed logarithm
is such a one (`SymLog.isRising_log10`).
-/

namespace DramTiming

open Binary64

namespace SymLog

variable {log10 : Binary64 → Binary64} {s : SymLog Binary64} {v w threshold : Binary64}

/-! ### Scales with a given logarithm -/

/-- A logarithm that grows from one on, where it is zero. -/
structure IsRising (log10 : Binary64 → Binary64) : Prop where
  one : Binary64.eq (log10 1) 0 = true
  mono : ∀ {x y : Binary64}, le 1 x = true → le x y = true → le (log10 x) (log10 y) = true

theorem isRising_log10 : IsRising Binary64.log10 where
  one := by
    rw [log10_one]
    exact eq_iff.mpr ⟨isNaN_zero, isNaN_zero, rfl⟩
  mono := log10_le_log10

/-- The place of a value on a scale that takes its logarithms from `log10`. -/
def forwardWith (log10 : Binary64 → Binary64) (s : SymLog Binary64) (v : Binary64) : Binary64 :=
  letI : DecimalLog Binary64 := { (inferInstance : DecimalLog Binary64) with log10 := log10 }
  s.forward v

theorem forwardWith_log10 (s : SymLog Binary64) (v : Binary64) :
    forwardWith Binary64.log10 s v = s.forward v := rfl

theorem forwardWith_of_le (h : le v.abs s.threshold = true) :
    forwardWith log10 s v = v / s.threshold := if_pos h

theorem forwardWith_of_not_le (h : ¬ le v.abs s.threshold = true) :
    forwardWith log10 s v = signum v * (1 + log10 (v.abs / s.threshold)) := if_neg h

/-! ### Thresholds -/

/-- A finite positive number. -/
structure IsThreshold (t : Binary64) : Prop where
  isFinite : t.isFinite = true
  not_negative : t.negative = false
  ne_zero : t.magnitude ≠ 0

theorem isThreshold_leastThreshold : IsThreshold leastThreshold := by
  obtain ⟨hfinite, hsign, -⟩ := twoPow_of_le (n := -1022) (by decide) (by decide)
  exact ⟨hfinite, hsign, by decide +kernel⟩

/-- Whatever threshold is asked for, if it is not infinite: the one that is stored is positive. -/
theorem isThreshold_ofThreshold (h : threshold.isInfinite = false) :
    IsThreshold (ofThreshold threshold).threshold := by
  have hleast := isThreshold_leastThreshold
  have hleastNan := isNaN_eq_false hleast.isFinite
  have hnan : threshold.abs.isNaN = threshold.isNaN := rfl
  show IsThreshold (Binary64.max threshold.abs leastThreshold)
  rw [Binary64.max, hleastNan, Bool.false_or, ite_self]
  split
  · next hlt =>
    -- What is larger than the smallest threshold is larger than zero.
    obtain ⟨-, habs, hkey⟩ := lt_iff.mp hlt
    rw [numericKey_of_not_negative hleast.not_negative,
      numericKey_of_not_negative (x := threshold.abs) rfl] at hkey
    have hfinite : threshold.isFinite = true :=
      isFinite_of_not_isNaN_of_not_isInfinite habs (by simp [h])
    exact ⟨hfinite, rfl, by omega⟩
  · exact hleast

/-! ### The two pieces -/

/-- In the linear piece, places are at most one. -/
theorem div_threshold_le_one (hs : IsThreshold s.threshold) (hv : v.negative = false)
    (h : le v s.threshold = true) : le (v / s.threshold) 1 = true := by
  rw [← div_self_of_isFinite hs.isFinite hs.ne_zero]
  exact div_le_div_right hs.isFinite hs.not_negative hs.ne_zero hv hs.not_negative h

/-- Beyond it, the quotients are at least one. -/
theorem one_le_div_threshold (hs : IsThreshold s.threshold) (hv : v.negative = false)
    (h : le s.threshold v = true) : le 1 (v / s.threshold) = true := by
  rw [← div_self_of_isFinite hs.isFinite hs.ne_zero]
  exact div_le_div_right hs.isFinite hs.not_negative hs.ne_zero hs.not_negative hv h

/-- In the logarithmic piece, places are at least one. -/
theorem one_le_one_add_log10 (hlog : IsRising log10) (hs : IsThreshold s.threshold)
    (hv : v.negative = false) (h : le s.threshold v = true) :
    le 1 (1 + log10 (v / s.threshold)) = true := by
  obtain ⟨-, hfinite, -⟩ := one_spec
  have hgrows := hlog.mono (le_refl isNaN_one) (one_le_div_threshold hs hv h)
  obtain ⟨hnan, hzero, hkey⟩ := eq_iff.mp hlog.one
  apply le_add_self hfinite
  exact Binary64.le_trans (le_iff.mpr ⟨hzero, hnan, hkey.ge⟩) hgrows

theorem abs_of_not_negative (hv : v.negative = false) : v.abs = v :=
  eq_of_negative_of_magnitude hv.symm rfl

/-- The place of a positive value beyond the threshold. -/
theorem forwardWith_of_lt (hlog : IsRising log10) (hs : IsThreshold s.threshold)
    (hv : v.negative = false) (h : lt s.threshold v = true) :
    forwardWith log10 s v = 1 + log10 (v / s.threshold) := by
  obtain ⟨hthreshold, hnan, -⟩ := lt_iff.mp h
  have hnle : ¬ le v.abs s.threshold = true := by
    rw [abs_of_not_negative hv]
    exact (not_le_iff_lt hnan hthreshold).mpr h
  have hsum := one_le_one_add_log10 hlog hs hv (Binary64.le_of_lt h)
  rw [forwardWith_of_not_le hnle, abs_of_not_negative hv, signum_mul hnan (le_iff.mp hsum).2.1, hv,
    if_neg Bool.false_ne_true]

/-! ### Values without a minus sign -/

theorem le_or_threshold_lt (hs : IsThreshold s.threshold) (hnan : v.isNaN = false) :
    le v s.threshold = true ∨ lt s.threshold v = true := by
  by_cases hle : le v s.threshold = true
  · exact .inl hle
  · exact .inr ((not_le_iff_lt hnan (isNaN_eq_false hs.isFinite)).mp hle)

theorem forwardWith_of_le_threshold (hv : v.negative = false) (h : le v s.threshold = true) :
    forwardWith log10 s v = v / s.threshold := by
  apply forwardWith_of_le
  rwa [abs_of_not_negative hv]

/-- The place of a value without a minus sign has none either. -/
theorem negative_forwardWith (hlog : IsRising log10) (hs : IsThreshold s.threshold)
    (hnan : v.isNaN = false) (hv : v.negative = false) :
    (forwardWith log10 s v).isNaN = false ∧ (forwardWith log10 s v).negative = false := by
  rcases le_or_threshold_lt hs hnan with hle | hlt
  · have hone := div_threshold_le_one hs hv hle
    rw [forwardWith_of_le_threshold hv hle]
    exact ⟨(le_iff.mp hone).1, negative_div hv hs.not_negative⟩
  · have hone := one_le_one_add_log10 hlog hs hv (Binary64.le_of_lt hlt)
    rw [forwardWith_of_lt hlog hs hv hlt]
    exact ⟨(one_le_iff.mp hone).1, (one_le_iff.mp hone).2.1⟩

/-- Values of the linear piece are placed before those of the logarithmic one. -/
theorem forwardWith_le_forwardWith (hlog : IsRising log10) (hs : IsThreshold s.threshold)
    (hv : v.negative = false) (hw : w.negative = false) (h : le v w = true) :
    le (forwardWith log10 s v) (forwardWith log10 s w) = true := by
  obtain ⟨hvnan, hwnan, -⟩ := le_iff.mp h
  have hquotients : le (v / s.threshold) (w / s.threshold) = true :=
    div_le_div_right hs.isFinite hs.not_negative hs.ne_zero hv hw h
  rcases le_or_threshold_lt hs hwnan with hwle | hwlt
  · have hvle := Binary64.le_trans h hwle
    rw [forwardWith_of_le_threshold hv hvle, forwardWith_of_le_threshold hw hwle]
    exact hquotients
  · have hwone := one_le_one_add_log10 hlog hs hw (Binary64.le_of_lt hwlt)
    rw [forwardWith_of_lt hlog hs hw hwlt]
    rcases le_or_threshold_lt hs hvnan with hvle | hvlt
    · rw [forwardWith_of_le_threshold hv hvle]
      exact Binary64.le_trans (div_threshold_le_one hs hv hvle) hwone
    · obtain ⟨-, hfinite, -⟩ := one_spec
      rw [forwardWith_of_lt hlog hs hv hvlt]
      apply add_le_add_left hfinite
      exact hlog.mono (one_le_div_threshold hs hv (Binary64.le_of_lt hvlt)) hquotients

/-! ### All values -/

/-- Values of opposite sign have opposite places. -/
theorem forwardWith_neg (hlog : IsRising log10) (hs : IsThreshold s.threshold)
    (hnan : v.isNaN = false) : forwardWith log10 s (-v) = -forwardWith log10 s v := by
  have habs : (-v).abs = v.abs := rfl
  have hsize : v.abs.negative = false := rfl
  have hnan' : v.abs.isNaN = false := hnan
  rcases le_or_threshold_lt (v := v.abs) hs hnan' with hle | hlt
  · rw [forwardWith_of_le hle, forwardWith_of_le (v := -v) hle]
    exact neg_div_of_isFinite hnan hs.isFinite hs.ne_zero
  · have hnle := (not_le_iff_lt hnan' (isNaN_eq_false hs.isFinite)).mpr hlt
    have hsum := one_le_one_add_log10 hlog hs hsize (Binary64.le_of_lt hlt)
    have hsumNan := (le_iff.mp hsum).2.1
    rw [forwardWith_of_not_le hnle, forwardWith_of_not_le (v := -v) hnle, habs,
      signum_mul hnan hsumNan, signum_mul (x := -v) hnan hsumNan]
    show (if (!v.negative) = true then _ else _) = _
    cases v.negative
    · simp
    · simp [neg_neg_self]

theorem numericKey_forwardWith_zero (hs : IsThreshold s.threshold) (h : v.magnitude = 0) :
    (forwardWith log10 s v).numericKey = 0 := by
  have hfinite : v.isFinite = true := isFinite_iff.mpr (by rw [h]; decide)
  have hunits : v.units = 0 := (units_eq_zero_iff hfinite).mpr h
  have hpos : 0 < s.threshold.units :=
    Nat.pos_of_ne_zero (units_ne_zero hs.isFinite hs.ne_zero)
  have hle : le v.abs s.threshold = true := by
    rw [le_iff_magnitude_le (isNaN_eq_false (x := v.abs) hfinite) (isNaN_eq_false hs.isFinite) rfl
      hs.not_negative]
    show v.magnitude ≤ s.threshold.magnitude
    omega
  rw [forwardWith_of_le hle, div_of_isFinite hfinite hs.isFinite hs.ne_zero, hunits, Nat.zero_mul,
    ofUnits_zero hpos]
  cases v.negative != s.threshold.negative <;> rfl

/-- The size of a place is the place of the size. -/
theorem abs_forwardWith (hlog : IsRising log10) (hs : IsThreshold s.threshold)
    (hnan : v.isNaN = false) : (forwardWith log10 s v).abs = forwardWith log10 s v.abs := by
  have hplace := (negative_forwardWith hlog hs (v := v.abs) hnan rfl).2
  cases hv : v.negative
  · rw [abs_of_not_negative hv] at hplace ⊢
    exact abs_of_not_negative hplace
  · have hvalue : v = -v.abs := eq_of_negative_of_magnitude hv rfl
    have habs (x : Binary64) : (-x).abs = x.abs := rfl
    rw [← abs_of_not_negative hplace, ← habs (forwardWith log10 s v.abs),
      ← forwardWith_neg hlog hs (v := v.abs) hnan, ← hvalue]

/-- For every threshold that is asked for but the infinite ones, the scale has a place for each
value that is a number, keeps the order of values, and takes opposite values to opposite places.
What is at most the threshold lies between minus one and one, and what exceeds it does not lie
between them. -/
theorem forwardWith_spec (hlog : IsRising log10) (hthreshold : threshold.isInfinite = false) :
    let s := ofThreshold threshold
    (∀ v w, le v w = true →
      (forwardWith log10 s v).isNaN = false ∧ (forwardWith log10 s w).isNaN = false ∧
      le (forwardWith log10 s v) (forwardWith log10 s w) = true) ∧
    ∀ v, v.isNaN = false →
      forwardWith log10 s (-v) = -forwardWith log10 s v ∧
      (le v.abs s.threshold = true → le (forwardWith log10 s v).abs 1 = true) ∧
      (lt s.threshold v.abs = true → le 1 (forwardWith log10 s v).abs = true) := by
  intro s
  have hs : IsThreshold s.threshold := isThreshold_ofThreshold hthreshold
  refine ⟨?_, ?_⟩
  · intro v w h
    have hplaces := le_of_odd (f := forwardWith log10 s) (fun x => forwardWith_neg hlog hs)
      (fun x => numericKey_forwardWith_zero hs)
      (fun x y => forwardWith_le_forwardWith hlog hs) h
    obtain ⟨hv, hw, -⟩ := le_iff.mp hplaces
    exact ⟨hv, hw, hplaces⟩
  · intro v hnan
    rw [abs_forwardWith hlog hs hnan]
    refine ⟨forwardWith_neg hlog hs hnan, ?_, ?_⟩
    · intro hle
      rw [forwardWith_of_le_threshold rfl hle]
      exact div_threshold_le_one hs rfl hle
    · intro hlt
      rw [forwardWith_of_lt hlog hs rfl hlt]
      exact one_le_one_add_log10 hlog hs rfl (Binary64.le_of_lt hlt)

/-- A scale that was given no number as its threshold takes the smallest one.  On it the smallest
number of all is still in the linear piece, and one is far beyond it. -/
theorem forwardWith_spec_nan :
    let s := ofThreshold nan
    let tiny : Binary64 := ⟨true, 1, by decide⟩
    IsRising Binary64.log10 ∧ nan.isInfinite = false ∧ le tiny 1 = true ∧
      le (s.forward tiny) (s.forward 1) = true ∧ s.forward (-1) = -s.forward 1 ∧
      le tiny.abs s.threshold = true ∧ le (s.forward tiny).abs 1 = true ∧
      lt s.threshold (1 : Binary64).abs = true ∧ le 1 (s.forward 1).abs = true ∧
      lt 308 (s.forward 1) = true := by
  intro s tiny
  have hnan : nan.isInfinite = false := by decide
  obtain ⟨horder, hvalues⟩ := forwardWith_spec isRising_log10 hnan
  have hle : le tiny 1 = true := by decide +kernel
  have hlinear : le tiny.abs s.threshold = true := by decide +kernel
  have hbeyond : lt s.threshold (1 : Binary64).abs = true := by decide +kernel
  have hfar : lt 308 (s.forward 1) = true := by decide +kernel
  obtain ⟨-, -, hplaces⟩ := horder tiny 1 hle
  obtain ⟨-, hband, -⟩ := hvalues tiny (by decide)
  obtain ⟨hodd, -, hdecades⟩ := hvalues 1 isNaN_one
  exact ⟨isRising_log10, hnan, hle, hplaces, hodd, hlinear, hband hlinear, hbeyond,
    hdecades hbeyond, hfar⟩

end SymLog

end DramTiming
