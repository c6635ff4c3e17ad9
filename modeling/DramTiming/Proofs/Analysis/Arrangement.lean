import Mathlib.Data.List.FinRange
import DramTiming.Analysis.Correlation
import DramTiming.Proofs.Binary64.Order

/-!
# The arrangement of measurements

A correlation is made of the measurements at each tRCD, in their order there.  So it is the same for
all files that arrange the measurements of the same tRCD alike, however they interleave those of
different ones (`Table.correlation_eq_of_rearranges`).
-/

namespace DramTiming

open Binary64

variable {rows rows' : List Row} {t t' : Table}

/-- Two lists hold the same measurements, and those at numerically equal tRCD values stand in the
same order in both. -/
def Rearranges (rows rows' : List Row) : Prop :=
  ∃ place : Fin rows.length ≃ Fin rows'.length,
    (∀ i, rows'.get (place i) = rows.get i) ∧
    ∀ i j, i < j → Binary64.eq (rows.get i).trcd (rows.get j).trcd = true → place i < place j

namespace Rearranges

theorem eq_of_eq_of_eq {x y z : Binary64} (hx : Binary64.eq x z = true)
    (hy : Binary64.eq y z = true) : Binary64.eq x y = true := by
  obtain ⟨hxnan, -, hxkey⟩ := eq_iff.mp hx
  obtain ⟨hynan, -, hykey⟩ := eq_iff.mp hy
  exact eq_iff.mpr ⟨hxnan, hynan, hxkey.trans hykey.symm⟩

theorem map_finRange_perm (place : Fin rows.length ≃ Fin rows'.length) :
    ((List.finRange rows.length).map place).Perm (List.finRange rows'.length) := by
  refine (List.perm_ext_iff_of_nodup ?_ (List.nodup_finRange _)).mpr fun i => ?_
  · exact (List.nodup_finRange _).map place.injective
  · simpa using place.surjective i

/-- The first list, read from the places in the second. -/
theorem eq_map_get {place : Fin rows.length ≃ Fin rows'.length}
    (hget : ∀ i, rows'.get (place i) = rows.get i) :
    rows = ((List.finRange rows.length).map place).map rows'.get := by
  rw [List.map_map]
  calc rows = (List.finRange rows.length).map rows.get := (List.map_get_finRange rows).symm
    _ = (List.finRange rows.length).map (rows'.get ∘ place) :=
      List.map_congr_left fun i _ => (hget i).symm

theorem perm (h : Rearranges rows rows') : rows.Perm rows' := by
  obtain ⟨place, hget, -⟩ := h
  have hperm : (((List.finRange rows.length).map place).map rows'.get).Perm
      ((List.finRange rows'.length).map rows'.get) := (map_finRange_perm place).map _
  rwa [← eq_map_get hget, List.map_get_finRange] at hperm

/-- At each tRCD both lists have the same measurements, in the same order. -/
theorem filter_trcd_eq (h : Rearranges rows rows') (trcd : Binary64) :
    rows.filter (fun row => Binary64.eq row.trcd trcd) =
      rows'.filter (fun row => Binary64.eq row.trcd trcd) := by
  obtain ⟨place, hget, horder⟩ := h
  -- The positions of these measurements in the first list, taken to the second one ...
  let here := (List.finRange rows.length).filter fun i => Binary64.eq (rows.get i).trcd trcd
  -- ... are the positions that they have in the second list.
  let there := (List.finRange rows'.length).filter fun i => Binary64.eq (rows'.get i).trcd trcd
  have hperm : (here.map place).Perm there := by
    have hfilter := (map_finRange_perm place).filter fun i => Binary64.eq (rows'.get i).trcd trcd
    rw [List.filter_map] at hfilter
    simpa only [Function.comp_def, hget] using hfilter
  have hsorted : (here.map place).Pairwise (· < ·) := by
    rw [List.pairwise_map]
    have hpairs : here.Pairwise fun i j => i < j ∧
        Binary64.eq (rows.get i).trcd trcd = true ∧ Binary64.eq (rows.get j).trcd trcd = true := by
      refine List.Pairwise.imp_of_mem ?_ ((List.pairwise_lt_finRange _).filter _)
      intro i j hi hj hij
      exact ⟨hij, (List.mem_filter.mp hi).2, (List.mem_filter.mp hj).2⟩
    exact hpairs.imp fun ⟨hij, hi, hj⟩ => horder _ _ hij (eq_of_eq_of_eq hi hj)
  have hplaces : here.map place = there := by
    refine hperm.eq_of_pairwise (fun i j _ _ hij hji => absurd hij hji.asymm) hsorted ?_
    exact (List.pairwise_lt_finRange _).filter _
  calc rows.filter (fun row => Binary64.eq row.trcd trcd)
      = (here.map place).map rows'.get := by
        conv_lhs => rw [← List.map_get_finRange rows]
        rw [List.filter_map, List.map_map]
        exact List.map_congr_left fun i _ => (hget i).symm
    _ = there.map rows'.get := by rw [hplaces]
    _ = rows'.filter (fun row => Binary64.eq row.trcd trcd) := by
        conv_rhs => rw [← List.map_get_finRange rows']
        rw [List.filter_map]
        rfl

end Rearranges

namespace Table

theorem distinctTrcd_eq_of_rearranges (h : Rearranges t.rows t'.rows) :
    t.distinctTrcd = t'.distinctTrcd := by
  rw [distinctTrcd, distinctTrcd, sort_eq_sort (h.perm.map Row.trcd)]

theorem coefficientAt_eq_of_rearranges (h : Rearranges t.rows t'.rows) (trcd : Binary64) :
    t.coefficientAt trcd = t'.coefficientAt trcd := by
  rw [coefficientAt, coefficientAt, rowsWithTrcd, rowsWithTrcd, h.filter_trcd_eq]

theorem coefficients_eq_of_rearranges (h : Rearranges t.rows t'.rows) :
    t.coefficients = t'.coefficients := by
  rw [coefficients, coefficients, distinctTrcd_eq_of_rearranges h]
  simp only [coefficientAt_eq_of_rearranges h]

/-- Tables of one label that have the same measurements, in the same order at each tRCD, have the
same correlation, and it is reported the same. -/
theorem correlation_eq_of_rearranges (hlabel : t.label = t'.label)
    (h : Rearranges t.rows t'.rows) :
    t.correlation = t'.correlation ∧
      t.correlation.map Correlation.report = t'.correlation.map Correlation.report := by
  have hcorrelation : t.correlation = t'.correlation := by
    rw [correlation, correlation, correlationWith, correlationWith, hlabel,
      coefficients_eq_of_rearranges h]
  exact ⟨hcorrelation, by rw [hcorrelation]⟩

/-- Measurements at two tRCD values, one after the other. -/
def sampleGrouped : Table where
  label := ⟨"TestChip", some 0, some 24, none⟩
  source := ⟨"grouped.csv"⟩
  rows := [⟨zero false, 1, 1, none⟩, ⟨zero true, 2, 3, none⟩, ⟨zero false, 4, 2, none⟩,
    ⟨5, 1, 1, none⟩, ⟨5, 2, 2, none⟩]

/-- The same measurements, with those at the second tRCD among those at the first one. -/
def sampleInterleaved : Table where
  label := ⟨"TestChip", some 0, some 24, none⟩
  source := ⟨"interleaved.csv"⟩
  rows := [⟨5, 1, 1, none⟩, ⟨zero false, 1, 1, none⟩, ⟨zero true, 2, 3, none⟩, ⟨5, 2, 2, none⟩,
    ⟨zero false, 4, 2, none⟩]

/-- Where the measurements of the one table are in the other. -/
def samplePlace : Fin 5 ≃ Fin 5 where
  toFun := [1, 2, 4, 0, 3].get
  invFun := [3, 0, 1, 4, 2].get
  left_inv := show ∀ i : Fin 5, _ by decide
  right_inv := show ∀ i : Fin 5, _ by decide

theorem correlation_eq_of_rearranges_sample :
    sampleGrouped.label = sampleInterleaved.label ∧
    Rearranges sampleGrouped.rows sampleInterleaved.rows ∧
    sampleGrouped.rows ≠ sampleInterleaved.rows ∧
    sampleGrouped.correlation = sampleInterleaved.correlation ∧
    sampleGrouped.correlation.map Correlation.report =
      sampleInterleaved.correlation.map Correlation.report := by
  have hlabel : sampleGrouped.label = sampleInterleaved.label := rfl
  have h : Rearranges sampleGrouped.rows sampleInterleaved.rows :=
    ⟨samplePlace, by decide +kernel, by decide +kernel⟩
  exact ⟨hlabel, h, by decide +kernel, correlation_eq_of_rearranges hlabel h⟩

end Table

end DramTiming
