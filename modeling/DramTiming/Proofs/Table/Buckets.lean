import Mathlib.Data.List.FinRange
import Mathlib.Data.List.Nodup
import DramTiming.Proofs.Binary64.Order
import DramTiming.Proofs.Table.Layout

/-!
# Buckets of measurements

The tRCD values of a table ascend, and every row is at just one of them, so the rows at each of them
make up the table (`Table.partition_distinctTrcd`).  Sorting tells the two zeros apart and keeping
the first of equal values does not: what is kept stands before all the values it stands for.
-/

namespace DramTiming

open Binary64

namespace Table

variable {t : Table} {last : Binary64} {values : List Binary64}

/-! ### Values without their repetitions -/

theorem dedupAfter_sublist (last : Binary64) (values : List Binary64) :
    (dedupAfter last values).Sublist values := by
  induction values generalizing last with
  | nil => exact .refl []
  | cons v values ih =>
    rw [dedupAfter]
    split
    · exact (ih last).cons v
    · exact (ih v).cons_cons v

theorem dedup_sublist (values : List Binary64) : (dedup values).Sublist values := by
  cases values with
  | nil => exact .refl []
  | cons v values => exact (dedupAfter_sublist v values).cons_cons v

/-- Every value is equal to one that is kept and does not stand after it. -/
theorem exists_mem_dedupAfter (hnan : ∀ v ∈ last :: values, v.isNaN = false)
    (hsorted : (last :: values).Pairwise fun x y => totalLE x y = true) :
    ∀ v ∈ last :: values, ∃ x ∈ last :: dedupAfter last values,
      Binary64.eq v x = true ∧ totalLE x v = true := by
  have hself {v : Binary64} (hv : v.isNaN = false) :
      Binary64.eq v v = true ∧ totalLE v v = true :=
    ⟨eq_iff.mpr ⟨hv, hv, rfl⟩, totalLE_iff.mpr le_rfl⟩
  induction values generalizing last with
  | nil =>
    intro v hv
    obtain rfl := List.mem_singleton.mp hv
    exact ⟨v, List.mem_cons_self, hself (hnan v hv)⟩
  | cons first values ih =>
    obtain ⟨hlast, hnan'⟩ := List.forall_mem_cons.mp hnan
    obtain ⟨hbefore, hsorted'⟩ := List.pairwise_cons.mp hsorted
    intro v hv
    rw [dedupAfter]
    split
    · next heq =>
      -- The first of the others is dropped: the value kept last stands for it too.
      rcases List.mem_cons.mp hv with rfl | hv
      · exact ⟨v, List.mem_cons_self, hself hlast⟩
      rcases List.mem_cons.mp hv with rfl | hv
      · exact ⟨last, List.mem_cons_self, heq, hbefore v List.mem_cons_self⟩
      · refine ih ?_ ?_ v (List.mem_cons_of_mem last hv)
        · exact List.forall_mem_cons.mpr ⟨hlast, (List.forall_mem_cons.mp hnan').2⟩
        · exact hsorted.sublist (.cons_cons last (.cons first (.refl values)))
    · rcases List.mem_cons.mp hv with rfl | hv
      · exact ⟨v, List.mem_cons_self, hself hlast⟩
      · obtain ⟨x, hx, hstands⟩ := ih hnan' hsorted' v hv
        exact ⟨x, List.mem_cons_of_mem last hx, hstands⟩

/-- Of sorted values, those that are kept ascend strictly. -/
theorem pairwise_dedupAfter (hnan : ∀ v ∈ last :: values, v.isNaN = false)
    (hsorted : (last :: values).Pairwise fun x y => totalLE x y = true) :
    (last :: dedupAfter last values).Pairwise fun x y => lt x y = true := by
  induction values generalizing last with
  | nil => exact List.pairwise_singleton _ _
  | cons first values ih =>
    obtain ⟨hlast, hnan'⟩ := List.forall_mem_cons.mp hnan
    obtain ⟨hbefore, hsorted'⟩ := List.pairwise_cons.mp hsorted
    rw [dedupAfter]
    split
    · refine ih ?_ ?_
      · exact List.forall_mem_cons.mpr ⟨hlast, (List.forall_mem_cons.mp hnan').2⟩
      · exact hsorted.sublist (.cons_cons last (.cons first (.refl values)))
    · next hne =>
      have hlt : lt last first = true :=
        lt_of_totalLE_of_ne hlast (hnan' first List.mem_cons_self)
          (hbefore first List.mem_cons_self) hne
      have hrest := ih hnan' hsorted'
      refine List.pairwise_cons.mpr ⟨List.forall_mem_cons.mpr ⟨hlt, fun x hx => ?_⟩, hrest⟩
      exact lt_trans hlt ((List.pairwise_cons.mp hrest).1 x hx)

/-! ### tRCD values -/

theorem mem_sort_trcd {v : Binary64} :
    v ∈ sort (t.rows.map Row.trcd) ↔ ∃ row ∈ t.rows, row.trcd = v := by
  rw [(sort_perm _).mem_iff, List.mem_map]

theorem exists_of_mem_distinctTrcd {v : Binary64} (h : v ∈ t.distinctTrcd) :
    ∃ row ∈ t.rows, row.trcd = v :=
  mem_sort_trcd.mp ((dedup_sublist _).subset h)

/-- Every row has a number as its tRCD. -/
def HasTrcd (t : Table) : Prop := ∀ row ∈ t.rows, row.trcd.isNaN = false

theorem isNaN_sort_trcd (h : t.HasTrcd) : ∀ v ∈ sort (t.rows.map Row.trcd), v.isNaN = false := by
  intro v hv
  obtain ⟨row, hrow, rfl⟩ := mem_sort_trcd.mp hv
  exact h row hrow

theorem pairwise_distinctTrcd (h : t.HasTrcd) :
    t.distinctTrcd.Pairwise fun x y => lt x y = true := by
  have hnan := isNaN_sort_trcd h
  have hsorted := pairwise_sort (t.rows.map Row.trcd)
  unfold distinctTrcd
  cases hsort : sort (t.rows.map Row.trcd) with
  | nil => exact .nil
  | cons first values =>
    rw [hsort] at hnan hsorted
    exact pairwise_dedupAfter hnan hsorted

/-- The tRCD of every row is equal to one of those of the table that does not stand after it. -/
theorem exists_mem_distinctTrcd (h : t.HasTrcd) :
    ∀ row ∈ t.rows, ∃ x ∈ t.distinctTrcd,
      Binary64.eq row.trcd x = true ∧ totalLE x row.trcd = true := by
  intro row hrow
  have hmem : row.trcd ∈ sort (t.rows.map Row.trcd) := mem_sort_trcd.mpr ⟨row, hrow, rfl⟩
  have hnan := isNaN_sort_trcd h
  have hsorted := pairwise_sort (t.rows.map Row.trcd)
  unfold distinctTrcd
  cases hsort : sort (t.rows.map Row.trcd) with
  | nil =>
    rw [hsort] at hmem
    cases hmem
  | cons first values =>
    rw [hsort] at hmem hnan hsorted
    exact exists_mem_dedupAfter hnan hsorted _ hmem

/-- Two tRCD values of a table that equal the same number are one. -/
theorem eq_of_mem_distinctTrcd (h : t.HasTrcd) {v x y : Binary64} (hx : x ∈ t.distinctTrcd)
    (hy : y ∈ t.distinctTrcd) (hvx : Binary64.eq v x = true) (hvy : Binary64.eq v y = true) :
    x = y := by
  obtain ⟨-, -, hkeyx⟩ := eq_iff.mp hvx
  obtain ⟨-, -, hkeyy⟩ := eq_iff.mp hvy
  have hnodup : (t.distinctTrcd.map numericKey).Nodup := by
    rw [List.Nodup, List.pairwise_map]
    exact (pairwise_distinctTrcd h).imp fun hlt => (lt_iff.mp hlt).2.2.ne
  exact List.inj_on_of_nodup_map hnodup hx hy (hkeyx.symm.trans hkeyy)

theorem zero_mem_distinctTrcd (h : t.HasTrcd) (hzero : ∃ row ∈ t.rows, row.trcd = zero true) :
    zero true ∈ t.distinctTrcd := by
  obtain ⟨row, hrow, hrowzero⟩ := hzero
  obtain ⟨x, hx, heq, hle⟩ := exists_mem_distinctTrcd h row hrow
  rw [hrowzero] at heq hle
  obtain ⟨-, -, hkey⟩ := eq_iff.mp heq
  rwa [eq_zero_of_totalLE hkey.symm hle] at hx

/-! ### Buckets -/

/-- The positions of the rows that are measured at a tRCD. -/
def positionsWithTrcd (t : Table) (trcd : Binary64) : List (Fin t.rows.length) :=
  (List.finRange t.rows.length).filter fun i => Binary64.eq (t.rows.get i).trcd trcd

theorem rowsWithTrcd_eq_map_get (t : Table) (trcd : Binary64) :
    t.rowsWithTrcd trcd = (t.positionsWithTrcd trcd).map t.rows.get := by
  rw [rowsWithTrcd, positionsWithTrcd]
  conv_lhs => rw [← List.map_get_finRange t.rows]
  rw [List.filter_map]
  rfl

theorem mem_positionsWithTrcd_iff {trcd : Binary64} {i : Fin t.rows.length} :
    i ∈ t.positionsWithTrcd trcd ↔ Binary64.eq (t.rows.get i).trcd trcd = true := by
  simp [positionsWithTrcd]

/-- The rows at the tRCD values of a table are a partition of its rows. -/
structure IsPartitioned (t : Table) : Prop where
  ascending : t.distinctTrcd.Pairwise fun x y => lt x y = true
  measured : ∀ x ∈ t.distinctTrcd, ∃ row ∈ t.rows, row.trcd = x
  unique : ∀ row ∈ t.rows, ∃! x, x ∈ t.distinctTrcd ∧ Binary64.eq row.trcd x = true
  /-- Where there is a zero with a minus sign, it is the one that stands for both. -/
  zero : (∃ row ∈ t.rows, row.trcd = zero true) →
    zero true ∈ t.distinctTrcd ∧ zero false ∉ t.distinctTrcd
  nonempty : ∀ x ∈ t.distinctTrcd, t.rowsWithTrcd x ≠ []
  /-- The rows at a tRCD are those at certain positions, in the order of the table. -/
  order : ∀ x, t.rowsWithTrcd x = (t.positionsWithTrcd x).map t.rows.get ∧
    (t.positionsWithTrcd x).Pairwise (· < ·)
  disjoint : t.distinctTrcd.Pairwise fun x y =>
    (t.positionsWithTrcd x).Disjoint (t.positionsWithTrcd y)
  /-- Every position is that of a row at one of the values, once. -/
  perm : (t.distinctTrcd.flatMap t.positionsWithTrcd).Perm (List.finRange t.rows.length)
  rows : (t.distinctTrcd.flatMap t.rowsWithTrcd).Perm t.rows

theorem pairwise_positionsWithTrcd (t : Table) (trcd : Binary64) :
    (t.positionsWithTrcd trcd).Pairwise (· < ·) :=
  (List.pairwise_lt_finRange _).filter _

/-- Each position is that of a row at one tRCD. -/
theorem exists_mem_positionsWithTrcd (h : t.HasTrcd) (i : Fin t.rows.length) :
    ∃ x ∈ t.distinctTrcd, i ∈ t.positionsWithTrcd x := by
  obtain ⟨x, hx, heq, -⟩ := exists_mem_distinctTrcd h _ (t.rows.get_mem i)
  exact ⟨x, hx, mem_positionsWithTrcd_iff.mpr heq⟩

theorem disjoint_positionsWithTrcd (t : Table) {x y : Binary64} (hlt : lt x y = true) :
    (t.positionsWithTrcd x).Disjoint (t.positionsWithTrcd y) := by
  intro i hx hy
  obtain ⟨-, -, hkeyx⟩ := eq_iff.mp (mem_positionsWithTrcd_iff.mp hx)
  obtain ⟨-, -, hkeyy⟩ := eq_iff.mp (mem_positionsWithTrcd_iff.mp hy)
  exact (lt_iff.mp hlt).2.2.ne (hkeyx.symm.trans hkeyy)

theorem perm_flatMap_positionsWithTrcd (h : t.HasTrcd) :
    (t.distinctTrcd.flatMap t.positionsWithTrcd).Perm (List.finRange t.rows.length) := by
  refine (List.perm_ext_iff_of_nodup ?_ (List.nodup_finRange _)).mpr fun i => ?_
  · refine List.nodup_flatMap.mpr ⟨fun x _ => ?_, ?_⟩
    · exact (t.pairwise_positionsWithTrcd x).imp fun hlt => hlt.ne
    · exact (pairwise_distinctTrcd h).imp fun hlt => t.disjoint_positionsWithTrcd hlt
  · simpa using exists_mem_positionsWithTrcd h i

theorem perm_flatMap_rowsWithTrcd (h : t.HasTrcd) :
    (t.distinctTrcd.flatMap t.rowsWithTrcd).Perm t.rows := by
  have hperm := (perm_flatMap_positionsWithTrcd h).map t.rows.get
  rw [List.map_flatMap, List.map_get_finRange] at hperm
  rwa [funext t.rowsWithTrcd_eq_map_get]

/-- The tRCD values of a table part its rows if each row has a number as its tRCD, as in every table
that is read from a file. -/
theorem isPartitioned_of_hasTrcd (t : Table) :
    (t.HasTrcd → t.IsPartitioned) ∧
      ∀ (d : Dataset) (content : Except FileError (List UInt8)),
        d.toTable content = .ok t → t.HasTrcd := by
  constructor
  · intro h
    refine ⟨pairwise_distinctTrcd h, fun x hx => exists_of_mem_distinctTrcd hx, ?_, ?_, ?_, ?_, ?_,
      perm_flatMap_positionsWithTrcd h, perm_flatMap_rowsWithTrcd h⟩
    · intro row hrow
      obtain ⟨x, hx, heq, -⟩ := exists_mem_distinctTrcd h row hrow
      exact ⟨x, ⟨hx, heq⟩, fun y ⟨hy, heq'⟩ => eq_of_mem_distinctTrcd h hy hx heq' heq⟩
    · intro hzero
      have hmem := zero_mem_distinctTrcd h hzero
      refine ⟨hmem, fun hmem' => ?_⟩
      have hsame := eq_of_mem_distinctTrcd h (v := zero true) hmem hmem' (by decide) (by decide)
      exact absurd hsame (by decide)
    · intro x hx hnone
      obtain ⟨row, hrow, rfl⟩ := exists_of_mem_distinctTrcd hx
      have hself : Binary64.eq row.trcd row.trcd = true := eq_iff.mpr ⟨h row hrow, h row hrow, rfl⟩
      exact List.filter_eq_nil_iff.mp hnone row hrow hself
    · exact fun x => ⟨t.rowsWithTrcd_eq_map_get x, t.pairwise_positionsWithTrcd x⟩
    · exact (pairwise_distinctTrcd h).imp fun hlt => t.disjoint_positionsWithTrcd hlt
  · intro d content hread row hrow
    exact isNaN_eq_false (Dataset.isFinite_of_toTable hread row hrow).trcd

/-- Measurements at two tRCD values in turn, one of them zero with and without a minus sign. -/
def sampleZeros : List UInt8 :=
  "tRCD,retention,FehlerProzent\n5,0,1\n0,0,2\n-0,20,3\n5,20,4\n".toUTF8.toList

def sampleZerosTable : Table :=
  ⟨(Dataset.ofPath ⟨"a.csv"⟩).labelOf, ⟨"a.csv"⟩,
    [⟨5, 1, 0, none⟩, ⟨0, 2, 0, none⟩, ⟨zero true, 3, 20, none⟩, ⟨5, 4, 20, none⟩]⟩

theorem isPartitioned_of_hasTrcd_sample :
    (Dataset.ofPath ⟨"a.csv"⟩).toTable (.ok sampleZeros) = .ok sampleZerosTable ∧
      sampleZerosTable.HasTrcd ∧ sampleZerosTable.IsPartitioned ∧
      sampleZerosTable.distinctTrcd = [zero true, 5] ∧
      sampleZerosTable.rowsWithTrcd (zero true) =
        [⟨0, 2, 0, none⟩, ⟨zero true, 3, 20, none⟩] := by
  have hread : (Dataset.ofPath ⟨"a.csv"⟩).toTable (.ok sampleZeros) = .ok sampleZerosTable :=
    Dataset.toTable_bytes_eq_ok_iff.mpr ⟨_, by decide +kernel, rfl⟩
  have hsort : sort (sampleZerosTable.rows.map Row.trcd) = [zero true, 0, 5, 5] := by
    have hperm : (sampleZerosTable.rows.map Row.trcd).Perm [zero true, 0, 5, 5] := by
      decide +kernel
    rw [sort_eq_sort hperm, sort, List.mergeSort_of_pairwise (by decide +kernel)]
  obtain ⟨hpartitioned, htable⟩ := isPartitioned_of_hasTrcd sampleZerosTable
  have htrcd := htable _ _ hread
  refine ⟨hread, htrcd, hpartitioned htrcd, ?_, by decide +kernel⟩
  rw [distinctTrcd, hsort]
  decide +kernel

end Table

end DramTiming
