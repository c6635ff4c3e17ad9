import DramTiming.Proofs.Analysis.Correlation
import DramTiming.Proofs.Statistics.Definedness

/-!
# Where a table has no coefficient

At a tRCD a table has no coefficient of its own if it has one measurement there, or if the errors or
the retention times do not vary; over all tRCD values it has no trend if the coefficients do not
vary.  That is all, but for values whose scale is infinite (`correlation_undefined_iff`).
-/

namespace DramTiming

open Binary64 Statistics

namespace Table

variable {t : Table}

/-! ### tRCD values -/

theorem isFinite_of_mem_distinctTrcd (h : ∀ row ∈ t.rows, row.IsFinite) :
    ∀ x ∈ t.distinctTrcd, x.isFinite = true := by
  intro x hx
  obtain ⟨row, hrow, rfl⟩ := exists_of_mem_distinctTrcd hx
  exact (h row hrow).trcd

theorem hasTrcd_of_isFinite (h : ∀ row ∈ t.rows, row.IsFinite) : t.HasTrcd :=
  fun row hrow => isNaN_eq_false (h row hrow).trcd

theorem exists_overflowsPower_distinctTrcd_iff (h : ∀ row ∈ t.rows, row.IsFinite) :
    (∃ x ∈ t.distinctTrcd, x.OverflowsPower) ↔ ∃ row ∈ t.rows, row.trcd.OverflowsPower := by
  constructor
  · rintro ⟨x, hx, hover⟩
    obtain ⟨row, hrow, rfl⟩ := exists_of_mem_distinctTrcd hx
    exact ⟨row, hrow, hover⟩
  · rintro ⟨row, hrow, hover⟩
    obtain ⟨x, hx, heq, -⟩ := exists_mem_distinctTrcd (hasTrcd_of_isFinite h) row hrow
    obtain ⟨-, -, hkey⟩ := eq_iff.mp heq
    refine ⟨x, hx, ?_⟩
    rwa [OverflowsPower, ← natAbs_numericKey, ← hkey, natAbs_numericKey]

/-- Of two tRCD values of a table, one is less than another. -/
theorem exists_lt_distinctTrcd (h : t.HasTrcd) (htwo : 2 ≤ t.distinctTrcd.length) :
    ∃ x ∈ t.distinctTrcd, ∃ y ∈ t.distinctTrcd, lt x y = true := by
  have hascending := pairwise_distinctTrcd h
  match hdistinct : t.distinctTrcd with
  | [] | [_] =>
    rw [hdistinct] at htwo
    exact absurd htwo (by simp)
  | first :: second :: rest =>
    rw [hdistinct] at hascending
    have hlt := (List.pairwise_cons.mp hascending).1 second List.mem_cons_self
    exact ⟨first, by simp, second, by simp, hlt⟩

theorem not_allEqual_distinctTrcd (h : t.HasTrcd) (htwo : 2 ≤ t.distinctTrcd.length) :
    ¬ AllEqual t.distinctTrcd := by
  intro hequal
  obtain ⟨x, hx, y, hy, hlt⟩ := exists_lt_distinctTrcd h htwo
  obtain ⟨-, -, hkeys⟩ := lt_iff.mp hlt
  obtain ⟨-, -, heq⟩ := eq_iff.mp (hequal x hx y hy)
  exact hkeys.ne heq

/-! ### Coefficients -/

theorem map_y_coefficients (t : Table) :
    t.coefficients.map DataPoint.y = t.distinctTrcd.map t.coefficientAt := by
  rw [coefficients, List.map_map]
  rfl

/-- What lies between minus one and one is far below the largest numbers. -/
theorem magnitude_lt_of_between {r : Binary64} (hlo : le (-1) r = true) (hhi : le r 1 = true) :
    r.magnitude < overflowMagnitude := by
  have hone : (1 : Binary64).magnitude < overflowMagnitude := by decide +kernel
  obtain ⟨-, -, hlokey⟩ := le_iff.mp hlo
  obtain ⟨-, -, hhikey⟩ := le_iff.mp hhi
  rw [numericKey_neg_of_not_negative rfl] at hlokey
  rw [numericKey_of_not_negative (x := 1) rfl] at hhikey
  rw [← natAbs_numericKey]
  omega

/-- A bucket of finite rows has no coefficient exactly if it has fewer than two rows, or its errors
or its retention times do not vary, or one of these is so large that its scale is infinite. -/
theorem pearson_rows_eq_none_iff {rows : List Row} (h : ∀ row ∈ rows, row.IsFinite) :
    pearson (rows.map Row.errorPercent) (rows.map Row.retention) = none ↔
      rows.length < 2 ∨ AllEqual (rows.map Row.errorPercent) ∨
        AllEqual (rows.map Row.retention) ∨
        ∃ row ∈ rows, row.errorPercent.OverflowsPower ∨ row.retention.OverflowsPower := by
  by_cases hlength : rows.length < 2
  · exact iff_of_true (pearson_of_length_lt (by rwa [List.length_map])) (.inl hlength)
  · rw [pearson_eq_none_iff (by simp) (by rw [List.length_map]; omega)
      (List.forall_mem_map.mpr fun row hrow => (h row hrow).errorPercent)
      (List.forall_mem_map.mpr fun row hrow => (h row hrow).retention)]
    simp only [hlength, false_or, List.mem_map, exists_exists_and_eq_and, and_or_left, exists_or]

/-- The coefficients of a table have no trend exactly if they do not vary, or a tRCD is so large
that its scale is infinite. -/
theorem trendOf?_eq_none_iff (h : ∀ row ∈ t.rows, row.IsFinite)
    (htwo : 2 ≤ t.distinctTrcd.length) :
    trendOf? t.coefficients = none ↔ AllEqual (t.coefficients.map DataPoint.y) ∨
      ∃ row ∈ t.rows, row.trcd.OverflowsPower := by
  have hbelow : ∀ r ∈ t.coefficients.map DataPoint.y, r.magnitude < overflowMagnitude := by
    rw [map_y_coefficients, List.forall_mem_map]
    intro trcd _
    obtain ⟨hlo, hhi⟩ := t.coefficientAt_between trcd
    exact magnitude_lt_of_between hlo hhi
  have hsmall : ¬ ∃ r ∈ t.coefficients.map DataPoint.y, r.OverflowsPower :=
    fun ⟨r, hr, hover⟩ => Nat.not_le.mpr (hbelow r hr) hover
  have hfinite : ∀ r ∈ t.coefficients.map DataPoint.y, r.isFinite = true :=
    fun r hr => isFinite_iff.mpr ((hbelow r hr).trans (by decide))
  rw [trendOf?, map_x_coefficients,
    pearson_eq_none_iff (by rw [List.length_map, length_coefficients]) htwo
      (isFinite_of_mem_distinctTrcd h) hfinite,
    exists_overflowsPower_distinctTrcd_iff h]
  simp only [not_allEqual_distinctTrcd (hasTrcd_of_isFinite h) htwo, hsmall, false_or, or_false]

end Table

/-- Finite samples of at least two values have no coefficient exactly if one of them does not vary,
or has a value so large that its scale is infinite.  So in a table that is read from a file, the
coefficient at a tRCD is missing exactly if there are fewer than two rows, or errors or retention
times that do not vary; and the trend exactly if the coefficients do not vary; or else because of
such a value. -/
theorem correlation_undefined_iff (xs ys : List Binary64) (d : Dataset)
    (content : Except FileError (List UInt8)) (t : Table) :
    (xs.length = ys.length → 2 ≤ xs.length →
      (∀ x ∈ xs, x.isFinite = true) → (∀ y ∈ ys, y.isFinite = true) →
      (pearson xs ys = none ↔ AllEqual xs ∨ AllEqual ys ∨
        (∃ x ∈ xs, x.OverflowsPower) ∨ ∃ y ∈ ys, y.OverflowsPower)) ∧
    (d.toTable content = .ok t →
      (∀ trcd, let rows := t.rowsWithTrcd trcd
        (pearson (rows.map Row.errorPercent) (rows.map Row.retention) = none ↔
          rows.length < 2 ∨ AllEqual (rows.map Row.errorPercent) ∨
          AllEqual (rows.map Row.retention) ∨
          ∃ row ∈ rows, row.errorPercent.OverflowsPower ∨ row.retention.OverflowsPower)) ∧
      (2 ≤ t.distinctTrcd.length →
        (Table.trendOf? t.coefficients = none ↔ AllEqual (t.coefficients.map DataPoint.y) ∨
          ∃ row ∈ t.rows, row.trcd.OverflowsPower))) := by
  refine ⟨pearson_eq_none_iff, fun h => ?_⟩
  have hrows := Dataset.isFinite_of_toTable h
  refine ⟨fun trcd => ?_, Table.trendOf?_eq_none_iff hrows⟩
  exact Table.pearson_rows_eq_none_iff fun row hrow => hrows row (List.mem_of_mem_filter hrow)

/-- Measurements at two tRCD values, of which the second has the same errors throughout. -/
def sampleBuckets : List UInt8 :=
  "tRCD,FehlerProzent,retention\n10,1,0\n10,2,20\n12,5,0\n12,5,20\n".toUTF8.toList

def sampleBucketTable : Table :=
  ⟨(Dataset.ofPath ⟨"a.csv"⟩).labelOf, ⟨"a.csv"⟩,
    [⟨10, 1, 0, none⟩, ⟨10, 2, 20, none⟩, ⟨12, 5, 0, none⟩, ⟨12, 5, 20, none⟩]⟩

theorem correlation_undefined_iff_sample :
    (pearson [1, 2, 4] [5, 5, 5] = none ↔ AllEqual [1, 2, 4] ∨ AllEqual [5, 5, 5] ∨
      (∃ x ∈ [1, 2, 4], OverflowsPower x) ∨ ∃ y ∈ [5, 5, 5], OverflowsPower y) ∧
    (Dataset.ofPath ⟨"a.csv"⟩).toTable (.ok sampleBuckets) = .ok sampleBucketTable ∧
    2 ≤ sampleBucketTable.distinctTrcd.length ∧
    (Table.trendOf? sampleBucketTable.coefficients = none ↔
      AllEqual (sampleBucketTable.coefficients.map DataPoint.y) ∨
        ∃ row ∈ sampleBucketTable.rows, row.trcd.OverflowsPower) ∧
    ((sampleBucketTable.rowsWithTrcd 12).map Row.errorPercent = [5, 5]) ∧
    (pearson [5, 5] [0, 20] = none ↔ 2 < 2 ∨ AllEqual [5, 5] ∨ AllEqual [0, 20] ∨
      ∃ row ∈ sampleBucketTable.rowsWithTrcd 12,
        row.errorPercent.OverflowsPower ∨ row.retention.OverflowsPower) := by
  have htable : (Dataset.ofPath ⟨"a.csv"⟩).toTable (.ok sampleBuckets) = .ok sampleBucketTable :=
    Dataset.toTable_bytes_eq_ok_iff.mpr ⟨_, by decide +kernel, rfl⟩
  have hdistinct : sampleBucketTable.distinctTrcd = [10, 12] :=
    (Table.distinctTrcd_of_pairwise (by decide +kernel)).trans (by decide +kernel)
  have htwo : 2 ≤ sampleBucketTable.distinctTrcd.length := by
    rw [hdistinct]
    decide
  have hrows : sampleBucketTable.rowsWithTrcd 12 = [⟨12, 5, 0, none⟩, ⟨12, 5, 20, none⟩] := by
    decide +kernel
  obtain ⟨hpearson, hundefined⟩ := correlation_undefined_iff [1, 2, 4] [5, 5, 5]
    (Dataset.ofPath ⟨"a.csv"⟩) (.ok sampleBuckets) sampleBucketTable
  obtain ⟨hbucket, htrend⟩ := hundefined htable
  have hequal := hbucket 12
  rw [hrows] at hequal ⊢
  refine ⟨hpearson (by simp) (by decide) ?_ ?_, htable, htwo, htrend htwo, rfl, hequal⟩
  · decide +kernel
  · decide +kernel

/-- The largest of all finite numbers. -/
def largestFinite : Binary64 := ofMagnitude (infinityMagnitude - 1) (by decide)

/-- With a value that large, samples that vary have no coefficient. -/
theorem pearson_largestFinite :
    largestFinite.isFinite = true ∧ ¬ AllEqual [largestFinite, 0] ∧ ¬ AllEqual [0, 1] ∧
      pearson [largestFinite, 0] [0, 1] = none := by
  have hvary {x y : Binary64} (hxy : ¬ Binary64.eq x y = true) : ¬ AllEqual [x, y] := fun h =>
    hxy (h x List.mem_cons_self y (List.mem_cons_of_mem x List.mem_cons_self))
  exact ⟨by decide, hvary (by decide +kernel), hvary (by decide +kernel), by decide +kernel⟩

end DramTiming
