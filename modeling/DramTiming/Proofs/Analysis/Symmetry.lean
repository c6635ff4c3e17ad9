import DramTiming.Proofs.Analysis.Definedness
import DramTiming.Proofs.Statistics.Symmetry

/-!
# Symmetries of the correlation of a table

A correlation does not tell failed shares and retention times apart, and with the signs of all
failed shares changed it is the opposite one (`Table.correlationWith_symmetric`).  Both hold for the
coefficient at each tRCD, and so for the trend, which is a coefficient of these coefficients.
-/

namespace DramTiming

open Binary64 Statistics

/-! ### Opposite correlations -/

/-- The second correlation has all coefficients of the first with the other sign; zeros count as
equal. -/
structure Correlation.Opposite (c c' : Correlation) : Prop where
  label : c'.label = c.label
  trcdValues : c'.trcdValues = c.trcdValues
  coefficients : List.Forall₂ Binary64.Opposite c.coefficientValues c'.coefficientValues
  trend : Binary64.Opposite c.trend.coefficient c'.trend.coefficient
  pValue : c'.trend.pValue = c.trend.pValue

/-- Two tables have opposite correlations, or no correlation for the same reason. -/
inductive OppositeOutcomes :
    Except CorrelationError Correlation → Except CorrelationError Correlation → Prop
  | ok {c c' : Correlation} : c.Opposite c' → OppositeOutcomes (.ok c) (.ok c')
  | error (e : CorrelationError) : OppositeOutcomes (.error e) (.error e)

/-! ### Changed tables -/

namespace Row

/-- The row with the failed share and the retention time in each other's place. -/
def exchanged (row : Row) : Row :=
  { row with errorPercent := row.retention, retention := row.errorPercent }

/-- The row with the other sign at its failed share. -/
def negated (row : Row) : Row := { row with errorPercent := -row.errorPercent }

theorem trcd_exchanged (row : Row) : row.exchanged.trcd = row.trcd := rfl

theorem trcd_negated (row : Row) : row.negated.trcd = row.trcd := rfl

end Row

namespace Table

/-- The table with each row changed. -/
def mapRows (f : Row → Row) (t : Table) : Table := { t with rows := t.rows.map f }

/-- The table with the failed share and the retention time of each row exchanged. -/
def exchanged (t : Table) : Table := t.mapRows Row.exchanged

/-- The table with the other sign at the failed share of each row. -/
def negated (t : Table) : Table := t.mapRows Row.negated

section mapRows

variable {f : Row → Row} (hf : ∀ row, (f row).trcd = row.trcd) (t : Table)

include hf

theorem distinctTrcd_mapRows : (t.mapRows f).distinctTrcd = t.distinctTrcd := by
  simp only [distinctTrcd, mapRows, List.map_map, Function.comp_def, hf]

theorem rowsWithTrcd_mapRows (trcd : Binary64) :
    (t.mapRows f).rowsWithTrcd trcd = (t.rowsWithTrcd trcd).map f := by
  simp only [rowsWithTrcd, mapRows, List.filter_map, Function.comp_def, hf]

end mapRows

/-! ### Exchanged columns -/

theorem coefficientAt_exchanged (t : Table) (trcd : Binary64) :
    t.exchanged.coefficientAt trcd = t.coefficientAt trcd := by
  unfold coefficientAt
  dsimp only
  rw [exchanged, rowsWithTrcd_mapRows Row.trcd_exchanged, List.map_map, List.map_map, pearson_comm]
  rfl

theorem coefficients_exchanged (t : Table) : t.exchanged.coefficients = t.coefficients := by
  rw [coefficients, coefficients, exchanged, distinctTrcd_mapRows Row.trcd_exchanged]
  exact List.map_congr_left fun trcd _ => congrArg _ (t.coefficientAt_exchanged trcd)

theorem correlationWith_exchanged (pValue? : Binary64 → Nat → Option Binary64) (t : Table) :
    t.exchanged.correlationWith pValue? = t.correlationWith pValue? := by
  rw [correlationWith, correlationWith, coefficients_exchanged]
  rfl

/-! ### Changed signs -/

theorem mirrored_getD {r? r'? : Option Binary64} (h : Option.Rel Mirrored r? r'?) :
    Mirrored (r?.getD 0) (r'?.getD 0) := by
  cases h with
  | some h => exact h
  | none => exact mirrored_zero

theorem mirrored_coefficientAt (t : Table) (trcd : Binary64) :
    Mirrored (t.coefficientAt trcd) (t.negated.coefficientAt trcd) := by
  unfold coefficientAt
  dsimp only
  rw [negated, rowsWithTrcd_mapRows Row.trcd_negated, List.map_map, List.map_map]
  refine mirrored_getD (mirrored_pearson ?_ _)
  rw [List.forall₂_map_left_iff, List.forall₂_map_right_iff, List.forall₂_same]
  exact fun row _ => mirrored_neg row.errorPercent

theorem isNaN_coefficientAt (t : Table) (trcd : Binary64) :
    (t.coefficientAt trcd).isNaN = false :=
  (le_iff.mp (t.coefficientAt_between trcd).1).2.1

theorem distinctTrcd_negated (t : Table) : t.negated.distinctTrcd = t.distinctTrcd :=
  distinctTrcd_mapRows Row.trcd_negated t

theorem forall₂_coefficients_negated {R : Binary64 → Binary64 → Prop} (t : Table)
    (h : ∀ trcd, R (t.coefficientAt trcd) (t.negated.coefficientAt trcd)) :
    List.Forall₂ R (t.coefficients.map DataPoint.y) (t.negated.coefficients.map DataPoint.y) := by
  rw [map_y_coefficients, map_y_coefficients, distinctTrcd_negated, List.forall₂_map_left_iff,
    List.forall₂_map_right_iff, List.forall₂_same]
  exact fun trcd _ => h trcd

/-- The trend of coefficients is that of the ones with the other sign, with the other sign. -/
theorem mirrored_trendOf? (t : Table) :
    Option.Rel Mirrored (trendOf? t.coefficients) (trendOf? t.negated.coefficients) := by
  rw [trendOf?, trendOf?, map_x_coefficients, map_x_coefficients, distinctTrcd_negated,
    pearson_comm, pearson_comm t.distinctTrcd]
  exact mirrored_pearson (t.forall₂_coefficients_negated t.mirrored_coefficientAt) _

theorem length_coefficients_negated (t : Table) :
    t.negated.coefficients.length = t.coefficients.length := by
  rw [length_coefficients, length_coefficients, distinctTrcd_negated]

/-- Trends with opposite coefficients and the same significance belong to opposite correlations. -/
theorem opposite_correlation (t : Table) {r r' p : Binary64} (h : Binary64.Opposite r r') :
    Correlation.Opposite ⟨t.label, t.coefficients, ⟨r, p⟩⟩
      ⟨t.negated.label, t.negated.coefficients, ⟨r', p⟩⟩ where
  label := rfl
  trcdValues := by
    rw [Correlation.trcdValues, Correlation.trcdValues, map_x_coefficients, map_x_coefficients,
      distinctTrcd_negated]
  coefficients := t.forall₂_coefficients_negated fun trcd =>
    (t.mirrored_coefficientAt trcd).opposite (t.isNaN_coefficientAt trcd)
  trend := h
  pValue := rfl

theorem oppositeOutcomes_negated (exceeds? : Binary64 → Binary64 → Option Binary64) (t : Table) :
    OppositeOutcomes (t.correlationWith (pValueWith? exceeds?))
      (t.negated.correlationWith (pValueWith? exceeds?)) := by
  rw [correlationWith, correlationWith, length_coefficients_negated]
  split
  · exact .error _
  · have htrend := t.mirrored_trendOf?
    generalize hr : trendOf? t.coefficients = r?, trendOf? t.negated.coefficients = r'? at htrend ⊢
    cases htrend with
    | none => exact .ok (t.opposite_correlation (mirrored_zero.opposite isNaN_zero))
    | some h =>
      have hopposite := h.opposite (isNaN_eq_false_of_pearson hr)
      dsimp only
      rw [pValueWith?_eq exceeds? h]
      split
      · exact .ok (t.opposite_correlation hopposite)
      · exact .error _

/-- Every correlation is made of numbers, if the distribution gives probabilities. -/
theorem isNaN_eq_false_of_correlationWith {exceeds? : Binary64 → Binary64 → Option Binary64}
    {t : Table} {c : Correlation} (h : t.correlationWith (pValueWith? exceeds?) = .ok c) :
    (∀ r ∈ c.coefficientValues, r.isNaN = false) ∧ c.trend.coefficient.isNaN = false ∧
      (GivesProbabilities exceeds? → t.rows.length ≤ 2 ^ 64 → c.trend.pValue.isNaN = false) := by
  obtain ⟨r, p, rfl, htrend⟩ := correlationWith_eq_ok h
  refine ⟨?_, ?_⟩
  · show ∀ r ∈ t.coefficients.map DataPoint.y, r.isNaN = false
    rw [map_y_coefficients, List.forall_mem_map]
    exact fun trcd _ => t.isNaN_coefficientAt trcd
  · obtain ⟨-, rfl, rfl⟩ | ⟨hr, hp⟩ := htrend
    · exact ⟨isNaN_zero, fun _ _ => isNaN_one⟩
    · have hnan := isNaN_eq_false_of_pearson hr
      refine ⟨hnan, fun hexceeds hrows => ?_⟩
      have hlength : t.coefficients.length ≤ 2 ^ 64 :=
        (t.length_coefficients.trans_le t.length_distinctTrcd_le).trans hrows
      obtain ⟨q, hq, hle, -⟩ := pValueWith?_between hexceeds hnan hlength
      rw [hp, Option.some_inj] at hq
      rw [hq]
      exact (le_iff.mp hle).2.1

/-- A table with the failed share and the retention time of each row exchanged has the same
correlation to the bit.  Its coefficients are numbers, as is the p-value if the distribution gives
probabilities.  With all failed shares negated it has the opposite correlation: the coefficients
change their signs and the p-value stays.  If there is no correlation, the cause is the same.

Both rest on the coefficients of samples, which do not tell the samples apart and change their sign
with those of a sample.  `correlation` is the case of Student's distribution. -/
theorem correlationWith_symmetric (exceeds? : Binary64 → Binary64 → Option Binary64) (t : Table) :
    t.exchanged.correlationWith (pValueWith? exceeds?) =
      t.correlationWith (pValueWith? exceeds?) ∧
    (∀ c, t.correlationWith (pValueWith? exceeds?) = .ok c →
      (∀ r ∈ c.coefficientValues, r.isNaN = false) ∧ c.trend.coefficient.isNaN = false ∧
        (GivesProbabilities exceeds? → t.rows.length ≤ 2 ^ 64 →
          c.trend.pValue.isNaN = false)) ∧
    OppositeOutcomes (t.correlationWith (pValueWith? exceeds?))
      (t.negated.correlationWith (pValueWith? exceeds?)) ∧
    ∀ xs ys, pearson xs ys = pearson ys xs ∧
      Option.Rel Binary64.Opposite (pearson xs ys) (pearson (xs.map (-·)) ys) :=
  ⟨t.correlationWith_exchanged _, fun _ => isNaN_eq_false_of_correlationWith,
    t.oppositeOutcomes_negated exceeds?, fun xs ys => ⟨pearson_comm xs ys, opposite_pearson xs ys⟩⟩

end Table

end DramTiming
