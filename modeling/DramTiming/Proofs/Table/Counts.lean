import Mathlib.Data.List.Basic
import DramTiming.Proofs.Table.Acceptance

/-!
# Totals of error counts

Counts are added in a 64-bit word, from the first row on, until a row without a count comes.  So a
total overflows exactly if the counts before that row do not fit into the word
(`addCounts_eq`), and it is exact in every arrangement of the rows exactly if all counts that are
there fit into it together (`totalErrorCount_exact`).
-/

namespace DramTiming

open Decimal (max64)

namespace Table

variable {t : Table} {counts counts' : List (Option Nat)}

/-! ### Sums of counts -/

/-- The sum of the counts that are known. -/
def knownSum : List (Option Nat) → Nat
  | [] => 0
  | none :: counts => knownSum counts
  | some count :: counts => count + knownSum counts

@[simp] theorem knownSum_nil : knownSum [] = 0 := rfl

@[simp] theorem knownSum_none_cons (counts : List (Option Nat)) :
    knownSum (none :: counts) = knownSum counts := rfl

@[simp] theorem knownSum_some_cons (count : Nat) (counts : List (Option Nat)) :
    knownSum (some count :: counts) = count + knownSum counts := rfl

theorem knownSum_append (counts counts' : List (Option Nat)) :
    knownSum (counts ++ counts') = knownSum counts + knownSum counts' := by
  induction counts with
  | nil => simp
  | cons count counts ih => cases count <;> simp [ih, Nat.add_assoc]

theorem knownSum_eq_zero (h : ∀ count ∈ counts, count = none) : knownSum counts = 0 := by
  rw [List.eq_replicate_of_mem h]
  induction counts.length with
  | zero => rfl
  | succ n ih => rw [List.replicate_succ, knownSum_none_cons, ih]

theorem knownSum_eq_of_perm (h : counts.Perm counts') : knownSum counts = knownSum counts' := by
  induction h with
  | nil => rfl
  | cons count _ ih => cases count <;> simp [ih]
  | swap count count' counts =>
    cases count <;> cases count' <;> simp [Nat.add_left_comm]
  | trans _ _ ih ih' => exact ih.trans ih'

/-- The counts before the first one that is missing. -/
def countsBefore (counts : List (Option Nat)) : List (Option Nat) :=
  counts.takeWhile Option.isSome

@[simp] theorem countsBefore_nil : countsBefore [] = [] := rfl

@[simp] theorem countsBefore_none_cons (counts : List (Option Nat)) :
    countsBefore (none :: counts) = [] := rfl

@[simp] theorem countsBefore_some_cons (count : Nat) (counts : List (Option Nat)) :
    countsBefore (some count :: counts) = some count :: countsBefore counts := rfl

theorem countsBefore_append (h : none ∉ counts) (counts' : List (Option Nat)) :
    countsBefore (counts ++ counts') = counts ++ countsBefore counts' := by
  refine List.takeWhile_append_of_pos fun count hcount => ?_
  rw [Option.isSome_iff_ne_none]
  rintro rfl
  exact h hcount

theorem countsBefore_of_not_mem (h : none ∉ counts) : countsBefore counts = counts := by
  simpa using countsBefore_append h []

theorem knownSum_countsBefore_le (counts : List (Option Nat)) :
    knownSum (countsBefore counts) ≤ knownSum counts := by
  have happend : countsBefore counts ++ counts.dropWhile Option.isSome = counts :=
    List.takeWhile_append_dropWhile
  calc knownSum (countsBefore counts)
      ≤ knownSum (countsBefore counts) + knownSum (counts.dropWhile Option.isSome) :=
        Nat.le_add_right _ _
    _ = knownSum counts := by rw [← knownSum_append, happend]

/-! ### Totals -/

/-- What has been added so far only grows, so it leaves the word on the way exactly if the sum of
all that is added is beyond it. -/
theorem addCounts_eq {sofar : Nat} (hsofar : sofar ≤ max64) :
    addCounts sofar counts =
      if max64 < sofar + knownSum (countsBefore counts) then .overflow
      else if none ∈ counts then .unknown else .known (sofar + knownSum counts) := by
  induction counts generalizing sofar with
  | nil => simp [addCounts, hsofar]
  | cons count counts ih =>
    cases count with
    | none => simp [addCounts, hsofar]
    | some count =>
      rw [addCounts, countsBefore_some_cons, knownSum_some_cons, knownSum_some_cons]
      split
      · next hle => simp [ih hle, Nat.add_assoc]
      · next hlt => rw [if_pos (by omega)]

/-- The counts of a table's rows. -/
def errorCounts (t : Table) : List (Option Nat) := t.rows.map Row.errorCount

theorem totalErrorCount_eq (t : Table) :
    t.totalErrorCount =
      if max64 < knownSum (countsBefore t.errorCounts) then .overflow
      else if none ∈ t.errorCounts then .unknown else .known (knownSum t.errorCounts) := by
  rw [totalErrorCount, addCounts_eq (Nat.zero_le _), Nat.zero_add, Nat.zero_add]
  rfl

theorem totalErrorCount_eq_overflow_iff :
    t.totalErrorCount = .overflow ↔ max64 < knownSum (countsBefore t.errorCounts) := by
  rw [totalErrorCount_eq]
  split
  · next h => simp [h]
  · next h => split <;> simp [h]

theorem totalErrorCount_eq_unknown_iff :
    t.totalErrorCount = .unknown ↔
      none ∈ t.errorCounts ∧ knownSum (countsBefore t.errorCounts) ≤ max64 := by
  rw [totalErrorCount_eq]
  split
  · next h => simp [h]
  · next h => split <;> simp_all

/-- A total is the sum of all counts. -/
theorem totalErrorCount_eq_known_iff {n : Nat} :
    t.totalErrorCount = .known n ↔
      none ∉ t.errorCounts ∧ n = knownSum t.errorCounts ∧ n ≤ max64 := by
  by_cases hmem : none ∈ t.errorCounts
  · rw [totalErrorCount_eq, if_pos hmem]
    split <;> simp [hmem]
  · rw [totalErrorCount_eq, if_neg hmem, countsBefore_of_not_mem hmem]
    split
    · next hover => simp; omega
    · next hle => simp [hmem]; omega

/-! ### Arrangements -/

/-- The total is unknown exactly if a row has no count, and else it is the sum of all counts. -/
def HasExactTotal (t : Table) : Prop :=
  t.totalErrorCount =
    if none ∈ t.errorCounts then .unknown else .known (knownSum t.errorCounts)

/-- The same table with its rows in another order. -/
def IsArrangement (t' t : Table) : Prop := ∃ rows, rows.Perm t.rows ∧ t' = { t with rows := rows }

theorem IsArrangement.errorCounts {t' : Table} (h : IsArrangement t' t) :
    t'.errorCounts.Perm t.errorCounts := by
  obtain ⟨rows, hperm, rfl⟩ := h
  exact hperm.map Row.errorCount

theorem hasExactTotal_of_le (h : knownSum t.errorCounts ≤ max64) : t.HasExactTotal := by
  have hle := knownSum_countsBefore_le t.errorCounts
  rw [HasExactTotal, totalErrorCount_eq, if_neg (by omega)]

theorem not_hasExactTotal_of_overflow (h : t.totalErrorCount = .overflow) :
    ¬ t.HasExactTotal := by
  intro hexact
  rw [HasExactTotal, h] at hexact
  split at hexact <;> cases hexact

/-- Whether a row has a count. -/
def isCounted (row : Row) : Bool := row.errorCount.isSome

/-- The rows that have a count come first. -/
def countedFirst (t : Table) : Table :=
  { t with rows := t.rows.filter isCounted ++ t.rows.filter (!isCounted ·) }

/-- The rows that have no count come first. -/
def countedLast (t : Table) : Table :=
  { t with rows := t.rows.filter (!isCounted ·) ++ t.rows.filter isCounted }

theorem isArrangement_countedFirst (t : Table) : IsArrangement t.countedFirst t :=
  ⟨_, List.filter_append_perm _ t.rows, rfl⟩

theorem isArrangement_countedLast (t : Table) : IsArrangement t.countedLast t :=
  ⟨_, List.perm_append_comm.trans (List.filter_append_perm _ t.rows), rfl⟩

theorem totalErrorCount_countedFirst (h : max64 < knownSum t.errorCounts) :
    t.countedFirst.totalErrorCount = .overflow := by
  have hcounted : none ∉ (t.rows.filter isCounted).map Row.errorCount := by
    simp [isCounted, Option.isSome_iff_ne_none]
  have hmissing : ∀ count ∈ (t.rows.filter (!isCounted ·)).map Row.errorCount, count = none :=
    List.forall_mem_map.mpr fun row hrow => by simpa [isCounted] using (List.mem_filter.mp hrow).2
  have hsum := knownSum_eq_of_perm t.isArrangement_countedFirst.errorCounts
  rw [errorCounts, countedFirst, List.map_append, knownSum_append,
    knownSum_eq_zero hmissing] at hsum
  rw [totalErrorCount_eq_overflow_iff, errorCounts, countedFirst, List.map_append,
    countsBefore_append hcounted, knownSum_append]
  omega

theorem totalErrorCount_countedLast (h : none ∈ t.errorCounts) :
    t.countedLast.totalErrorCount = .unknown := by
  have hmem : none ∈ t.countedLast.errorCounts :=
    t.isArrangement_countedLast.errorCounts.mem_iff.mpr h
  refine totalErrorCount_eq_unknown_iff.mpr ⟨hmem, ?_⟩
  obtain ⟨row, hrow, hnone⟩ := List.mem_map.mp h
  cases hrows : t.rows.filter (!isCounted ·) with
  | nil => exact absurd hnone (by simpa [isCounted] using List.filter_eq_nil_iff.mp hrows row hrow)
  | cons first rest =>
    have hfirst : first ∈ t.rows.filter (!isCounted ·) := by simp [hrows]
    have hmissing : first.errorCount = none := by
      simpa [isCounted] using (List.mem_filter.mp hfirst).2
    simp [errorCounts, countedLast, hrows, hmissing]

/-- A total overflows exactly if the counts before the first row without one do not fit into a word,
and else it is unknown exactly if there is such a row, and the sum of all counts if there is none.

So in all arrangements of the rows it is unknown for rows without a count, and the sum of the counts
otherwise, exactly if all known counts together fit into a word.  It is at least the same in all of
them if they do, or if each row has a count, and only then. -/
theorem totalErrorCount_exact (t : Table) :
    (t.totalErrorCount = .overflow ↔ max64 < knownSum (countsBefore t.errorCounts)) ∧
    (t.totalErrorCount = .unknown ↔
      none ∈ t.errorCounts ∧ knownSum (countsBefore t.errorCounts) ≤ max64) ∧
    (∀ n, t.totalErrorCount = .known n ↔
      none ∉ t.errorCounts ∧ n = knownSum t.errorCounts ∧ n ≤ max64) ∧
    ((∀ t', IsArrangement t' t → t'.HasExactTotal) ↔ knownSum t.errorCounts ≤ max64) ∧
    ((∀ t', IsArrangement t' t → t'.totalErrorCount = t.totalErrorCount) ↔
      knownSum t.errorCounts ≤ max64 ∨ none ∉ t.errorCounts) := by
  refine ⟨totalErrorCount_eq_overflow_iff, totalErrorCount_eq_unknown_iff,
    fun n => totalErrorCount_eq_known_iff, ⟨fun hexact => ?_, fun hle t' h => ?_⟩,
    fun hsame => ?_, fun h t' ht' => ?_⟩
  · by_contra hover
    have hoverflow := totalErrorCount_countedFirst (Nat.lt_of_not_le hover)
    exact not_hasExactTotal_of_overflow hoverflow (hexact _ t.isArrangement_countedFirst)
  · refine hasExactTotal_of_le ?_
    rwa [knownSum_eq_of_perm h.errorCounts]
  · by_contra hnot
    rw [not_or, not_not, Nat.not_le] at hnot
    obtain ⟨hover, hmem⟩ := hnot
    -- With the missing counts at the end it overflows, with these at the beginning it is unknown.
    have hfirst := hsame _ t.isArrangement_countedFirst
    have hlast := hsame _ t.isArrangement_countedLast
    rw [totalErrorCount_countedFirst hover] at hfirst
    rw [totalErrorCount_countedLast hmem, ← hfirst] at hlast
    cases hlast
  · have hsum := knownSum_eq_of_perm ht'.errorCounts
    have hmem : none ∈ t'.errorCounts ↔ none ∈ t.errorCounts := ht'.errorCounts.mem_iff
    rcases h with hle | hall
    · rw [hasExactTotal_of_le hle, hasExactTotal_of_le (hsum.trans_le hle)]
      simp only [hmem, hsum]
    · have hall' : none ∉ t'.errorCounts := hmem.not.mpr hall
      rw [totalErrorCount_eq, totalErrorCount_eq, countsBefore_of_not_mem hall,
        countsBefore_of_not_mem hall', hsum]
      simp only [hmem]

/-- Two counts that leave the word together, before a row without a count. -/
def sampleOverflow : List UInt8 :=
  "tRCD,retention,FehlerProzent,FehlerAbs\n10,0,1,18446744073709551615\n10,20,2,1\n10,40,3,\n"
    |>.toUTF8.toList

def sampleOverflowTable : Table :=
  ⟨(Dataset.ofPath ⟨"a.csv"⟩).labelOf, ⟨"a.csv"⟩,
    [⟨10, 1, 0, some 18446744073709551615⟩, ⟨10, 2, 20, some 1⟩, ⟨10, 3, 40, none⟩]⟩

/-- The total of a table that is read from a file overflows though a row has no count; in another
arrangement of the rows it does not. -/
theorem totalErrorCount_overflows :
    (Dataset.ofPath ⟨"a.csv"⟩).toTable (.ok sampleOverflow) = .ok sampleOverflowTable ∧
      none ∈ sampleOverflowTable.errorCounts ∧
      sampleOverflowTable.totalErrorCount = .overflow ∧ ¬ sampleOverflowTable.HasExactTotal ∧
      ∃ t', IsArrangement t' sampleOverflowTable ∧ t'.totalErrorCount = .unknown := by
  have hread : (Dataset.ofPath ⟨"a.csv"⟩).toTable (.ok sampleOverflow) = .ok sampleOverflowTable :=
    Dataset.toTable_bytes_eq_ok_iff.mpr ⟨_, by decide +kernel, rfl⟩
  have hmem : none ∈ sampleOverflowTable.errorCounts := by decide
  have hover : sampleOverflowTable.totalErrorCount = .overflow := by decide
  exact ⟨hread, hmem, hover, not_hasExactTotal_of_overflow hover, _,
    isArrangement_countedLast _, totalErrorCount_countedLast hmem⟩

end Table

end DramTiming
