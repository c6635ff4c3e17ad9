import DramTiming.Proofs.Csv.Positions
import DramTiming.Proofs.Table.Composition

/-!
# The line of a malformed record

A malformed record is reported at the line where the search for it begins, and lines are counted by
line feeds.  Main statement: that is the line on which the record begins exactly if no empty line
stands right before it and every carriage return before it has a line feed after it, both of them
before the search begins (`Dataset.line_of_malformed_record`).  So in a file with `\r\n` line ends
the line reported is the one before (`Dataset.line_of_malformed_record_crlf`).
-/

namespace DramTiming

open Csv

/-- A malformed record stands after the records that make the rows before it, and up to its end the
file is malformed for the same reason. -/
theorem exists_before_of_malformed {bytes : List UInt8} {p : Position} {cause : RecordFault}
    (h : rowsOfBytes bytes = .error (.record p cause)) :
    ∃ before gap record rest r, bytes = before ++ gap ++ record ++ rest ∧ IsGap gap ∧
      StartsRecord record ∧ EndsWithRecord (withoutMark before) ∧
      Csv.records (before ++ gap ++ record) = Csv.records before ++ [r] ∧ r.position = p ∧
      p.line = before.count lineFeed + 1 ∧
      (∃ rows, rowsOfBytes before = .ok rows) ∧
      rowsOfBytes (before ++ gap ++ record) = .error (.record p cause) := by
  cases hrecords : Csv.records bytes with
  | nil => simp [rowsOfBytes, hrecords] at h
  | cons header records =>
    rw [rowsOfBytes_of_records hrecords] at h
    cases hcolumns : headerColumns header with
    | error fault =>
      rw [hcolumns] at h
      cases h
      exact absurd hcolumns headerColumns_ne_record
    | ok columns =>
      rw [hcolumns] at h
      obtain ⟨earlier, r, later, rows, cause', rfl, hrows, hrow, hfault⟩ :=
        readRows_eq_error_iff.mp h
      cases hfault
      obtain ⟨before, gap, record, rest, hbytes, hgap, hstart, hend, hfirst, hlast, hposition⟩ :=
        exists_before_of_records hrecords (List.cons_ne_nil header earlier)
      refine ⟨before, gap, record, rest, r, hbytes, hgap, hstart, hend, ?_, rfl, ?_, ⟨rows, ?_⟩, ?_⟩
      · rw [hlast, hfirst]
      · rw [hposition]
      · rw [rowsOfBytes_of_records hfirst, hcolumns]
        exact hrows
      · rw [rowsOfBytes_of_records hlast, hcolumns]
        exact readRows_eq_error_iff.mpr ⟨earlier, r, [], rows, cause, rfl, hrows, hrow, rfl⟩

/-- Of a file with a malformed record, what stands before that record falls into whole records that
make a table, and further line ends.  The line reported counts the line feeds of the first part; it
is never beyond the line on which the record begins, and it is that line exactly if there are no
further line ends and every carriage return has a line feed after it. -/
theorem Dataset.line_of_malformed_record (d : Dataset) {bytes : List UInt8} {p : Csv.Position}
    {cause : RecordFault}
    (h : d.toTable (.ok bytes) = .error (.malformed d.path (.record p cause))) :
    ∃ before gap record rest r, bytes = before ++ gap ++ record ++ rest ∧
      EndsWithRecord (withoutMark before) ∧ IsGap gap ∧ StartsRecord record ∧
      Csv.records (before ++ gap ++ record) = Csv.records before ++ [r] ∧ r.position = p ∧
      (∃ table, d.toTable (.ok before) = .ok table) ∧
      d.toTable (.ok (before ++ gap ++ record)) = .error (.malformed d.path (.record p cause)) ∧
      (TableFault.record p cause).line = before.count lineFeed + 1 ∧
      (TableFault.record p cause).line ≤ lineEnds (before ++ gap) + 1 ∧
      ((TableFault.record p cause).line = lineEnds (before ++ gap) + 1 ↔
        gap = [] ∧ ReturnsArePaired before) := by
  obtain ⟨fault, hfault, heq⟩ := toTable_bytes_eq_error_iff.mp h
  cases heq
  obtain ⟨before, gap, record, rest, r, hbytes, hgap, hstart, hend, hrecords, hr, hline,
    ⟨rows, hrows⟩, hmalformed⟩ := exists_before_of_malformed hfault
  refine ⟨before, gap, record, rest, r, hbytes, hend, hgap, hstart, hrecords, hr,
    ⟨_, toTable_bytes_eq_ok_iff.mpr ⟨rows, hrows, rfl⟩⟩,
    toTable_bytes_eq_error_iff.mpr ⟨_, hmalformed, rfl⟩, hline, ?_, ?_⟩
  · have hle := count_lineFeed_le_lineEnds (before ++ gap)
    rw [List.count_append] at hle
    show p.line ≤ _
    omega
  · show p.line = _ ↔ _
    rw [hline, Nat.add_right_cancel_iff]
    exact count_lineFeed_eq_lineEnds_append_iff hgap

/-- A file with line feeds only, of which some stand in a quoted cell, and with a number that is
none in its last record. -/
def sampleLines : List UInt8 :=
  "tRCD,FehlerProzent,retention,note\n2.5,0.5,0,\"two\nlines\"\n5,abc,20,\n".toUTF8.toList

/-- The record that begins on the fourth line is reported there. -/
theorem line_of_malformed_record_sample :
    ∃ p cause before gap, (Dataset.ofPath ⟨"a.csv"⟩).toTable (.ok sampleLines) =
        .error (.malformed ⟨"a.csv"⟩ (.record p cause)) ∧
      (TableFault.record p cause).line = 4 ∧ before ++ gap <+: sampleLines ∧
      (TableFault.record p cause).line = before.count lineFeed + 1 ∧
      (TableFault.record p cause).line ≤ lineEnds (before ++ gap) + 1 := by
  have h : (Dataset.ofPath ⟨"a.csv"⟩).toTable (.ok sampleLines) =
      .error (.malformed ⟨"a.csv"⟩ (.record ⟨2, 4, 56⟩ (.cell (.notFloat 1 .invalid)))) :=
    Dataset.toTable_bytes_eq_error_iff.mpr ⟨_, by decide +kernel, rfl⟩
  obtain ⟨before, gap, record, rest, -, hbytes, -, -, -, -, -, -, -, hline, hle, -⟩ :=
    Dataset.line_of_malformed_record (.ofPath ⟨"a.csv"⟩) h
  refine ⟨_, _, before, gap, h, rfl, ?_, hline, hle⟩
  rw [hbytes, List.append_assoc _ record]
  exact List.prefix_append _ _

/-- The beginning of a file with `\r\n` line ends, and a record that makes no row. -/
def crlfBefore : List UInt8 := "tRCD,FehlerProzent,retention\r\n2.5,0.5,0\r\n".toUTF8.toList

def crlfRecord : List UInt8 := "5,abc,20\r\n".toUTF8.toList

/-- The record begins on the third line, and is reported on the second. -/
theorem Dataset.line_of_malformed_record_crlf :
    (∃ table, (Dataset.ofPath ⟨"a.csv"⟩).toTable (.ok crlfBefore) = .ok table) ∧
      (∃ fault, (Dataset.ofPath ⟨"a.csv"⟩).toTable (.ok (crlfBefore ++ crlfRecord)) =
          .error (.malformed ⟨"a.csv"⟩ fault) ∧ fault.line = 2) ∧
      lineEnds crlfBefore + 1 = 3 := by
  refine ⟨⟨_, toTable_bytes_eq_ok_iff.mpr ⟨[⟨2.5, 0.5, 0, none⟩], by decide +kernel, rfl⟩⟩,
    ⟨_, toTable_bytes_eq_error_iff.mpr
      ⟨.record ⟨2, 2, 40⟩ (.cell (.notFloat 1 .invalid)), by decide +kernel, rfl⟩, rfl⟩,
    by decide +kernel⟩

end DramTiming
