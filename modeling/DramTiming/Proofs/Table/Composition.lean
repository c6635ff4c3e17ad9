import DramTiming.Proofs.Csv.Records
import DramTiming.Proofs.Table.Acceptance

/-!
# Files in pieces

The records of a measurement file can be cut at any record end, and each piece read on its own under
the same header.  Main statement: the rows of both pieces make the rows of the whole, the first
piece's fault is the fault of the whole, and a fault of the second piece stays where it is but for
the records before it (`Dataset.toTable_append`).
-/

namespace DramTiming

open Csv

/-! ### Rows -/

theorem readRow_congr {columns : List (Option Column)} {record record' : Csv.Record}
    (h : record'.fields = record.fields) : readRow columns record' = readRow columns record := by
  rw [readRow, readRow, h]

theorem readRows_append {columns : List (Option Column)} (before after : List Csv.Record) :
    readRows columns (before ++ after) =
      readRows columns before >>= fun rows => (readRows columns after).map (rows ++ ·) := by
  induction before with
  | nil =>
    rw [List.nil_append, readRows]
    cases readRows columns after <;> rfl
  | cons record before ih =>
    rw [List.cons_append, readRows, readRows]
    cases readRow columns record with
    | error fault => rfl
    | ok row =>
      dsimp only
      rw [ih]
      cases readRows columns before with
      | error fault => rfl
      | ok rows => cases readRows columns after <;> rfl

theorem readRows_of_shifted {columns : List (Option Column)} {k : Nat}
    {records records' : List Csv.Record} {rows : List Row} (hshifted : Shifted k records records')
    (h : readRows columns records = .ok rows) : readRows columns records' = .ok rows := by
  rw [readRows_eq_ok_iff] at h ⊢
  induction hshifted generalizing rows with
  | nil => exact h
  | cons hrecord _ ih =>
    cases h with
    | cons hrow hrows => exact .cons ((readRow_congr hrecord.1).trans hrow) (ih hrows)

/-- Where records further on hold the same, the same one fails for the same cause. -/
theorem readRows_error_of_shifted {columns : List (Option Column)} {k : Nat}
    {records records' : List Csv.Record} {p : Position} {cause : RecordFault}
    (hshifted : Shifted k records records')
    (h : readRows columns records = .error (.record p cause)) :
    ∃ (i : Nat) (r r' : Csv.Record), records[i]? = some r ∧ records'[i]? = some r' ∧ r.position = p ∧
      r'.fields = r.fields ∧ r'.position.record = p.record + k ∧
      readRows columns records' = .error (.record r'.position cause) := by
  induction hshifted with
  | nil => cases h
  | @cons record record' records records' hrecord _ ih =>
    rw [readRows] at h
    cases hrow : readRow columns record with
    | error fault =>
      rw [hrow] at h
      cases h
      refine ⟨0, record, record', rfl, rfl, rfl, hrecord.1, hrecord.2, ?_⟩
      rw [readRows, readRow_congr hrecord.1, hrow]
    | ok row =>
      rw [hrow] at h
      cases hrest : readRows columns records with
      | ok rows => rw [hrest] at h; cases h
      | error fault =>
        rw [hrest] at h
        cases h
        obtain ⟨i, r, r', hr, hr', hp, hfields, hnumber, herror⟩ := ih hrest
        refine ⟨i + 1, r, r', hr, hr', hp, hfields, hnumber, ?_⟩
        rw [readRows, readRow_congr hrecord.1, hrow, herror]
        rfl

/-! ### Files -/

section

variable {header first : List UInt8} (hheader : IsHeaderLine header) (hfirst : EndsRecord first)
  {second : List UInt8}
include hheader hfirst

theorem rowsOfBytes_append_ok {rows rows' : List Row}
    (h : rowsOfBytes (header ++ first) = .ok rows)
    (h' : rowsOfBytes (header ++ second) = .ok rows') :
    rowsOfBytes (header ++ first ++ second) = .ok (rows ++ rows') := by
  obtain ⟨record, inFirst, inSecond, inSecond', hone, hother, hboth, -, hshifted⟩ :=
    hheader.records_append_append hfirst second
  rw [rowsOfBytes_of_records hone, bind_eq_ok_iff] at h
  rw [rowsOfBytes_of_records hother, bind_eq_ok_iff] at h'
  obtain ⟨columns, hcolumns, hrows⟩ := h
  obtain ⟨columns', hcolumns', hrows'⟩ := h'
  rw [hcolumns] at hcolumns'
  cases hcolumns'
  rw [rowsOfBytes_of_records hboth, hcolumns]
  show readRows columns (inFirst ++ inSecond') = _
  rw [readRows_append, hrows, readRows_of_shifted hshifted hrows']
  rfl

theorem rowsOfBytes_append_error {fault : TableFault}
    (h : rowsOfBytes (header ++ first) = .error fault) :
    rowsOfBytes (header ++ first ++ second) = .error fault := by
  obtain ⟨record, inFirst, inSecond, inSecond', hone, -, hboth, -, -⟩ :=
    hheader.records_append_append hfirst second
  rw [rowsOfBytes_of_records hone] at h
  rw [rowsOfBytes_of_records hboth]
  cases hcolumns : headerColumns record with
  | error fault' =>
    rw [hcolumns] at h
    exact h
  | ok columns =>
    rw [hcolumns] at h
    have hfault : readRows columns inFirst = .error fault := h
    show readRows columns (inFirst ++ inSecond') = _
    rw [readRows_append, hfault]
    rfl

theorem rowsOfBytes_append_error_of_ok {rows : List Row} {p : Csv.Position} {cause : RecordFault}
    (h : rowsOfBytes (header ++ first) = .ok rows)
    (h' : rowsOfBytes (header ++ second) = .error (.record p cause)) :
    ∃ (i : Nat) (r r' : Csv.Record), (Csv.records (header ++ second))[i]? = some r ∧
      (Csv.records (header ++ first ++ second))[i + recordCount first]? = some r' ∧
      r.position = p ∧ r'.fields = r.fields ∧ r'.position.record = p.record + recordCount first ∧
      rowsOfBytes (header ++ first ++ second) = .error (.record r'.position cause) := by
  obtain ⟨record, inFirst, inSecond, inSecond', hone, hother, hboth, hcount, hshifted⟩ :=
    hheader.records_append_append hfirst second
  rw [rowsOfBytes_of_records hone, bind_eq_ok_iff] at h
  obtain ⟨columns, hcolumns, hrows⟩ := h
  rw [rowsOfBytes_of_records hother, hcolumns] at h'
  obtain ⟨i, r, r', hr, hr', hp, hfields, hnumber, herror⟩ :=
    readRows_error_of_shifted hshifted h'
  -- The header record comes first in both files, hence the one more.
  refine ⟨i + 1, r, r', ?_, ?_, hp, hfields, hnumber, ?_⟩
  · rw [hother, List.getElem?_cons_succ, hr]
  · rw [hboth, Nat.add_right_comm, List.getElem?_cons_succ, ← hcount, Nat.add_comm,
      List.getElem?_append_right (Nat.le_add_right _ _), Nat.add_sub_cancel_left, hr']
  · rw [rowsOfBytes_of_records hboth, hcolumns]
    show readRows columns (inFirst ++ inSecond') = _
    rw [readRows_append, hrows]
    show (readRows columns inSecond').map (rows ++ ·) = _
    rw [herror]
    rfl

end

/-- Under one header line, a file whose records are cut at a record end is read piece by piece. -/
theorem Dataset.toTable_append (d : Dataset) {header first : List UInt8}
    (hheader : IsHeaderLine header) (hfirst : EndsRecord first) (second : List UInt8) :
    (∀ a b, d.toTable (.ok (header ++ first)) = .ok a → d.toTable (.ok (header ++ second)) = .ok b →
      d.toTable (.ok (header ++ first ++ second)) = .ok { a with rows := a.rows ++ b.rows }) ∧
    (∀ e, d.toTable (.ok (header ++ first)) = .error e →
      d.toTable (.ok (header ++ first ++ second)) = .error e) ∧
    ∀ a p cause, d.toTable (.ok (header ++ first)) = .ok a →
      d.toTable (.ok (header ++ second)) = .error (.malformed d.path (.record p cause)) →
      ∃ (i : Nat) (r r' : Csv.Record), (Csv.records (header ++ second))[i]? = some r ∧
        (Csv.records (header ++ first ++ second))[i + recordCount first]? = some r' ∧
        r.position = p ∧ r'.fields = r.fields ∧
        r'.position.record = p.record + recordCount first ∧
        d.toTable (.ok (header ++ first ++ second))
          = .error (.malformed d.path (.record r'.position cause)) := by
  refine ⟨?_, ?_, ?_⟩
  · intro a b ha hb
    obtain ⟨rows, hrows, rfl⟩ := toTable_bytes_eq_ok_iff.mp ha
    obtain ⟨rows', hrows', rfl⟩ := toTable_bytes_eq_ok_iff.mp hb
    have happend := rowsOfBytes_append_ok hheader hfirst hrows hrows'
    exact toTable_bytes_eq_ok_iff.mpr ⟨rows ++ rows', happend, rfl⟩
  · intro e he
    obtain ⟨fault, hfault, rfl⟩ := toTable_bytes_eq_error_iff.mp he
    have happend : rowsOfBytes (header ++ first ++ second) = .error fault :=
      rowsOfBytes_append_error hheader hfirst hfault
    exact toTable_bytes_eq_error_iff.mpr ⟨fault, happend, rfl⟩
  · intro a p cause ha hb
    obtain ⟨rows, hrows, rfl⟩ := toTable_bytes_eq_ok_iff.mp ha
    obtain ⟨fault, hfault, heq⟩ := toTable_bytes_eq_error_iff.mp hb
    cases heq
    obtain ⟨i, r, r', hr, hr', hp, hfields, hnumber, happend⟩ :=
      rowsOfBytes_append_error_of_ok hheader hfirst hrows hfault
    exact ⟨i, r, r', hr, hr', hp, hfields, hnumber,
      toTable_bytes_eq_error_iff.mpr ⟨_, happend, rfl⟩⟩

end DramTiming
