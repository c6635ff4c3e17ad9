import Mathlib.Data.List.Range
import DramTiming.Clock.Range
import DramTiming.Proofs.Decimal.Integer
import DramTiming.Proofs.Text.Trim

/-!
# Sweeps over multipliers

A sweep either has the clocks of every multiplier of its range, or of none: what stands in the way
is a divisor of zero, and that is the same for all of them (`sweep_of_isZero`,
`sweep_of_not_isZero`).  The text of a range is read back (`MultRange.parse_text`).
-/

namespace DramTiming

namespace ClockSetting

variable {s : ClockSetting}

/-- What the multiplied clock is divided by. -/
def divisor (s : ClockSetting) : Binary64 := s.divclkDivide * s.clkoutDivide

/-- The clocks for a multiplier, where the divisor is not zero. -/
def clocksAt (s : ClockSetting) (mult : Binary64) : Frequencies :=
  ⟨s.baseClk * mult / s.divisor, s.baseClk * mult / s.divisor / 2⟩

theorem frequencies_withMult (s : ClockSetting) (mult : Binary64) :
    (s.withMult mult).frequencies =
      if s.divisor.isZero then .error .dividers else .ok (s.clocksAt mult) := rfl

theorem sweepFrom_of_isZero (h : s.divisor.isZero = true) (mult count : Nat) :
    s.sweepFrom mult (count + 1) = .error .dividers := by
  rw [sweepFrom, frequencies_withMult, if_pos h]
  rfl

theorem sweepFrom_of_not_isZero (h : ¬ s.divisor.isZero = true) (mult count : Nat) :
    s.sweepFrom mult count =
      .ok ((List.range' mult count).map fun m => (m, s.clocksAt (Binary64.ofNat m))) := by
  induction count generalizing mult with
  | zero => rfl
  | succ count ih =>
    rw [sweepFrom, frequencies_withMult, if_neg h, ih]
    rfl

/-- A sweep over at least one multiplier has no clocks if the divisor is zero. -/
theorem sweep_of_isZero (h : s.divisor.isZero = true) {range : MultRange}
    (hrange : range.lo ≤ range.hi) : s.sweep range = .error .dividers := by
  obtain ⟨count, hcount⟩ : ∃ count, range.size = count + 1 :=
    ⟨range.hi - range.lo, by unfold MultRange.size; omega⟩
  rw [sweep, hcount, sweepFrom_of_isZero h]

/-- Otherwise it has those of every multiplier, in ascending order. -/
theorem sweep_of_not_isZero (h : ¬ s.divisor.isZero = true) (range : MultRange) :
    s.sweep range = .ok ((List.range' range.lo range.size).map fun m =>
      (m, s.clocksAt (Binary64.ofNat m))) :=
  sweepFrom_of_not_isZero h range.lo range.size

theorem sweep_of_lt {range : MultRange} (hrange : range.hi < range.lo) :
    s.sweep range = .ok [] := by
  have hsize : range.size = 0 := by
    unfold MultRange.size
    omega
  rw [sweep, hsize]
  rfl

/-- A sweep is all or nothing. -/
theorem exists_sweep_eq_error_iff {range : MultRange} :
    (∃ e, s.sweep range = .error e) ↔ range.lo ≤ range.hi ∧ s.divisor.isZero = true := by
  rcases Nat.lt_or_ge range.hi range.lo with hlt | hle
  · rw [sweep_of_lt hlt]
    simp [Nat.not_le.mpr hlt]
  · by_cases hzero : s.divisor.isZero = true
    · rw [sweep_of_isZero hzero hle]
      simp [hle, hzero]
    · rw [sweep_of_not_isZero hzero]
      simp [hzero]

/-- What a sweep has is what its multipliers have, each of them once and in ascending order. -/
theorem sweep_eq_ok {range : MultRange} {rows : List (Nat × Frequencies)}
    (h : s.sweep range = .ok rows) :
    rows.map Prod.fst = List.range' range.lo (range.hi + 1 - range.lo) ∧
      ∀ row ∈ rows, (s.withMult (Binary64.ofNat row.1)).frequencies = .ok row.2 := by
  by_cases hzero : s.divisor.isZero = true
  · have hlt : range.hi < range.lo := by
      refine Nat.not_le.mp fun hle => ?_
      cases (sweep_of_isZero hzero hle).symm.trans h
    cases (sweep_of_lt hlt).symm.trans h
    rw [Nat.sub_eq_zero_of_le hlt]
    exact ⟨rfl, nofun⟩
  · cases (sweep_of_not_isZero hzero range).symm.trans h
    constructor
    · rw [List.map_map]
      exact List.map_id _
    · intro row hrow
      obtain ⟨m, -, rfl⟩ := List.mem_map.mp hrow
      rw [frequencies_withMult, if_neg hzero]

/-- The multiplier of a setting has no influence on its sweeps. -/
theorem sweep_withMult (s : ClockSetting) (mult : Binary64) (range : MultRange) :
    (s.withMult mult).sweep range = s.sweep range := by
  have hfrom (first count : Nat) :
      (s.withMult mult).sweepFrom first count = s.sweepFrom first count := by
    induction count generalizing first with
    | zero => rfl
    | succ count ih =>
      rw [sweepFrom, sweepFrom, ih]
      rfl
  exact hfrom _ _

end ClockSetting

namespace MultRange

/-! ### The text of a range -/

theorem splitAtDots?_append {cs : List Char} (h : '.' ∉ cs) (after : List Char) :
    splitAtDots? (cs ++ '.' :: '.' :: '=' :: after) = some (cs, after) := by
  induction cs with
  | nil => rfl
  | cons c cs ih =>
    obtain ⟨hc, hcs⟩ := not_or.mp (mt List.mem_cons.mpr h)
    rw [List.cons_append, splitAtDots?, ih hcs]
    · rfl
    · intro _ hdot
      exact absurd hdot.symm hc

theorem readEnd_toDigits {n : Nat} (h : n ≤ Decimal.max32) :
    readEnd (Nat.toDigits 10 n) = .ok n := by
  have hwhole := Decimal.isWhole_toDigits n
  rw [readEnd, Text.trim, Text.trimBoth_eq_self hwhole.not_isBlank]
  exact (Decimal.readNat_eq_ok_iff (by decide)).mpr ⟨hwhole, h⟩

/-- A range of 32-bit numbers that is written with `..=` is read back. -/
theorem parse_text {lo hi : Nat} (hle : lo ≤ hi) (hhi : hi ≤ Decimal.max32) :
    parse s!"{lo}..={hi}" = .ok ⟨lo, hi⟩ := by
  have htext : (s!"{lo}..={hi}").toList =
      Nat.toDigits 10 lo ++ '.' :: '.' :: '=' :: Nat.toDigits 10 hi := by
    have hdots : (toString "..=").toList = ['.', '.', '='] := rfl
    simp [String.toList_append, hdots]
  have hdot : '.' ∉ Nat.toDigits 10 lo := fun hmem =>
    absurd (Decimal.isDigit_of_mem_toDigits lo _ hmem) (by decide)
  rw [parse, htext, splitAtDots?_append hdot, Option.some_or]
  simp only [readEnd_toDigits (hle.trans hhi), readEnd_toDigits hhi, pure_bind]
  exact if_neg (Nat.not_lt.mpr hle)

end MultRange

end DramTiming
