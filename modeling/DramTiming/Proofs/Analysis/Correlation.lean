import DramTiming.Analysis.Correlation
import DramTiming.Proofs.Statistics.Pearson
import DramTiming.Proofs.Statistics.StudentT
import DramTiming.Proofs.Table.Buckets

/-!
# The correlation of a table

Whatever doubles a table holds, it has a correlation as soon as it has two tRCD values, and all
coefficients of that are numbers from minus one to one (`Table.correlationWith_between`).
-/

namespace DramTiming

open Binary64 Statistics

namespace Table

/-! ### tRCD values -/

theorem length_distinctTrcd_le (t : Table) : t.distinctTrcd.length ≤ t.rows.length := by
  have hle := (dedup_sublist (sort (t.rows.map Row.trcd))).length_le
  rwa [(sort_perm _).length_eq, List.length_map] at hle

/-! ### Coefficients -/

theorem map_x_coefficients (t : Table) : t.coefficients.map DataPoint.x = t.distinctTrcd := by
  rw [coefficients, List.map_map]
  exact List.map_id _

theorem length_coefficients (t : Table) : t.coefficients.length = t.distinctTrcd.length := by
  rw [← map_x_coefficients, List.length_map]

/-- A coefficient is a number from minus one to one, however many rows a table has. -/
theorem coefficientAt_between (t : Table) (trcd : Binary64) :
    le (-1) (t.coefficientAt trcd) = true ∧ le (t.coefficientAt trcd) 1 = true := by
  unfold coefficientAt
  dsimp only
  cases hr : pearson ((t.rowsWithTrcd trcd).map Row.errorPercent)
      ((t.rowsWithTrcd trcd).map Row.retention) with
  | none => exact ⟨le_neg_one_zero, le_zero_one⟩
  | some r => exact pearson_between hr

theorem coefficients_between (t : Table) :
    ∀ p ∈ t.coefficients, le (-1) p.y = true ∧ le p.y 1 = true := by
  intro p hp
  obtain ⟨trcd, -, rfl⟩ := List.mem_map.mp hp
  exact t.coefficientAt_between trcd

theorem correlationWith_of_lt {pValue? : Binary64 → Nat → Option Binary64} {t : Table}
    (h : t.distinctTrcd.length < 2) :
    t.correlationWith pValue? = .error (.tooFewTrcd t.distinctTrcd.length) := by
  rw [correlationWith, length_coefficients, if_pos h]

/-- A correlation is made of the coefficients of its table and their trend. -/
theorem correlationWith_eq_ok {pValue? : Binary64 → Nat → Option Binary64} {t : Table}
    {c : Correlation} (h : t.correlationWith pValue? = .ok c) :
    ∃ r p, c = ⟨t.label, t.coefficients, ⟨r, p⟩⟩ ∧
      (trendOf? t.coefficients = none ∧ r = 0 ∧ p = 1 ∨
        trendOf? t.coefficients = some r ∧ pValue? r t.coefficients.length = some p) := by
  rw [correlationWith] at h
  by_cases hfew : t.coefficients.length < 2
  · rw [if_pos hfew] at h
    cases h
  · rw [if_neg hfew] at h
    cases htrend : trendOf? t.coefficients with
    | none =>
      rw [htrend] at h
      exact ⟨0, 1, (Except.ok.inj h).symm, .inl ⟨rfl, rfl, rfl⟩⟩
    | some r =>
      cases hp : pValue? r t.coefficients.length with
      | none =>
        simp only [htrend, hp] at h
        cases h
      | some p =>
        simp only [htrend, hp] at h
        exact ⟨r, p, (Except.ok.inj h).symm, .inr ⟨rfl, hp⟩⟩

/-- A correlation goes by the label of its table. -/
theorem label_of_correlationWith {pValue? : Binary64 → Nat → Option Binary64} {t : Table}
    {c : Correlation} (h : t.correlationWith pValue? = .ok c) : c.label = t.label := by
  obtain ⟨r, p, rfl, -⟩ := correlationWith_eq_ok h
  rfl

/-- A table with two tRCD values has a correlation, if all numbers have a p-value. -/
theorem exists_correlationWith {pValue? : Binary64 → Nat → Option Binary64} {Good : Binary64 → Prop}
    (hpValue : ∀ r n, r.isNaN = false → n ≤ 2 ^ 64 → ∃ p, pValue? r n = some p ∧ Good p)
    (hone : Good 1) {t : Table} (hrows : t.rows.length ≤ 2 ^ 64)
    (h : 2 ≤ t.distinctTrcd.length) :
    ∃ trend, t.correlationWith pValue? = .ok ⟨t.label, t.coefficients, trend⟩ ∧
      le (-1) trend.coefficient = true ∧ le trend.coefficient 1 = true ∧ Good trend.pValue := by
  rw [correlationWith, length_coefficients, if_neg (by omega)]
  cases hr : trendOf? t.coefficients with
  | none => exact ⟨⟨0, 1⟩, rfl, le_neg_one_zero, le_zero_one, hone⟩
  | some r =>
    obtain ⟨hlo, hhi⟩ := pearson_between hr
    obtain ⟨p, hp, hgood⟩ := hpValue r _ (le_iff.mp hlo).2.1 (t.length_distinctTrcd_le.trans hrows)
    dsimp only
    rw [hp]
    exact ⟨⟨r, p⟩, rfl, hlo, hhi, hgood⟩

theorem exists_correlation {t : Table} (hrows : t.rows.length ≤ 2 ^ 64)
    (h : 2 ≤ t.distinctTrcd.length) : ∃ c, t.correlation = .ok c ∧ c.label = t.label := by
  have hpValue (r : Binary64) (n : Nat) (hnan : r.isNaN = false) (hn : n ≤ 2 ^ 64) :
      ∃ p, pValue? r n = some p ∧ True := by
    obtain ⟨p, hp⟩ := exists_pValue? hnan hn
    exact ⟨p, hp, trivial⟩
  obtain ⟨trend, htrend, -⟩ := exists_correlationWith hpValue trivial hrows h
  exact ⟨_, htrend, rfl⟩

/-- A table has no correlation exactly if it has fewer than two tRCD values, and the cause tells
how many.  Otherwise the correlation has one coefficient for each of them, in their order; all
coefficients are numbers from minus one to one, and the p-value is a number from zero to one. -/
theorem correlationWith_between {exceeds? : Binary64 → Binary64 → Option Binary64}
    (hexceeds : GivesProbabilities exceeds?) {t : Table} (hrows : t.rows.length ≤ 2 ^ 64) :
    (∀ e, t.correlationWith (pValueWith? exceeds?) = .error e ↔
      t.distinctTrcd.length < 2 ∧ e = .tooFewTrcd t.distinctTrcd.length) ∧
    (2 ≤ t.distinctTrcd.length →
      ∃ c, t.correlationWith (pValueWith? exceeds?) = .ok c ∧ c.label = t.label ∧
        c.trcdValues = t.distinctTrcd ∧
        (∀ r ∈ c.coefficientValues, le (-1) r = true ∧ le r 1 = true) ∧
        le (-1) c.trend.coefficient = true ∧ le c.trend.coefficient 1 = true ∧
        le 0 c.trend.pValue = true ∧ le c.trend.pValue 1 = true) := by
  have hok := exists_correlationWith (fun r n => pValueWith?_between hexceeds)
    ⟨le_zero_one, le_refl isNaN_one⟩ hrows
  refine ⟨fun e => ?_, fun htwo => ?_⟩
  · rcases Nat.lt_or_ge t.distinctTrcd.length 2 with hlt | hge
    · rw [correlationWith_of_lt hlt]
      simp [hlt, eq_comm]
    · obtain ⟨trend, htrend, -⟩ := hok hge
      rw [htrend]
      simp [Nat.not_lt.mpr hge]
  · obtain ⟨trend, htrend, hbounds⟩ := hok htwo
    refine ⟨_, htrend, rfl, t.map_x_coefficients, ?_, hbounds⟩
    exact List.forall_mem_map.mpr t.coefficients_between

/-- Student's distribution where its value is a probability, and zero elsewhere. -/
def studentProbability? (freedom t : Binary64) : Option Binary64 :=
  match studentExceeds? freedom t with
  | some p => if le 0 p && le p 1 then some p else some 0
  | none => some 0

theorem givesProbabilities_studentProbability? : GivesProbabilities studentProbability? := by
  intro freedom t _ _ _ _
  unfold studentProbability?
  split
  · split
    · next p _ h =>
      rw [Bool.and_eq_true] at h
      exact ⟨p, rfl, h⟩
    · exact ⟨0, rfl, le_refl isNaN_zero, le_zero_one⟩
  · exact ⟨0, rfl, le_refl isNaN_zero, le_zero_one⟩

/-- Measurements in ascending order of their tRCD are found so. -/
theorem distinctTrcd_of_pairwise {t : Table}
    (h : (t.rows.map Row.trcd).Pairwise fun x y => totalLE x y = true) :
    t.distinctTrcd = dedup (t.rows.map Row.trcd) := by
  rw [distinctTrcd, sort_eq_of_pairwise (.refl _) h]

/-- Measurements at three tRCD values, where the two zeros count as one and an infinite share leaves
no coefficient. -/
def sampleTable : Table where
  label := ⟨"TestChip", some 0, some 24, none⟩
  source := ⟨"TestChip24x0.csv"⟩
  rows := [⟨zero true, 1, 0, none⟩, ⟨zero false, 3, 20, none⟩, ⟨5, 2, 0, none⟩,
    ⟨5, infinity false, 20, none⟩, ⟨10, 1, 1, none⟩, ⟨10, 2, 2, none⟩]

theorem distinctTrcd_sampleTable : sampleTable.distinctTrcd = [zero true, 5, 10] :=
  (distinctTrcd_of_pairwise (by decide +kernel)).trans (by decide +kernel)

/-- The sample has a correlation.  Its trend is level, and the distribution's value there is a
probability. -/
theorem correlationWith_between_sample :
    sampleTable.rows.length ≤ 2 ^ 64 ∧ 2 ≤ sampleTable.distinctTrcd.length ∧
    trendOf? ([zero true, 5, 10].map fun trcd => ⟨trcd, sampleTable.coefficientAt trcd⟩) = some 0 ∧
    pValueWith? studentProbability? 0 3 = pValue? 0 3 ∧
    ∃ c, sampleTable.correlationWith (pValueWith? studentProbability?) = .ok c ∧
      c.label = sampleTable.label ∧ c.trcdValues = sampleTable.distinctTrcd ∧
      (∀ r ∈ c.coefficientValues, le (-1) r = true ∧ le r 1 = true) ∧
      le (-1) c.trend.coefficient = true ∧ le c.trend.coefficient 1 = true ∧
      le 0 c.trend.pValue = true ∧ le c.trend.pValue 1 = true := by
  have hrows : sampleTable.rows.length ≤ 2 ^ 64 := by decide
  have htwo : 2 ≤ sampleTable.distinctTrcd.length := by
    rw [distinctTrcd_sampleTable]
    decide
  refine ⟨hrows, htwo, by decide +kernel, by decide +kernel, ?_⟩
  exact (correlationWith_between givesProbabilities_studentProbability? hrows).2 htwo

end Table

end DramTiming
