import DramTiming.Proofs.Session.Reading
import DramTiming.Proofs.Table.Composition
import DramTiming.Proofs.Table.Layout

/-!
# Loading measurement files

A run that loads a measurement file makes of it what its content stands for, with one exception: if
loaded tables are reported, the error counts are added up for that, and where they leave their word
the run breaks off (`Table.BreaksOff`).  Main statements, with this exception: which contents are
loaded (`loadTable_eq_ok_iff_isMeasurementFile`), that the layout of a content makes no difference
(`loadTable_of_writesRows`), and how contents are put together (`loadTable_append`).
-/

namespace DramTiming

open Csv

/-- The table of a measurement file with these rows. -/
def Dataset.tableWith (d : Dataset) (rows : List Row) : Table := ⟨d.labelOf, d.path, rows⟩

section

variable {v : Verbosity} {d : Dataset} {w : World} {bytes : List UInt8} {table : Table}
  (hfile : w.files.readFile d.path = .ok bytes)
include hfile

theorem loadTable_eq_table_error_iff {e : TableError} :
    (outcome (loadTable v d) w).1 = .error (.table e) ↔ d.toTable (.ok bytes) = .error e := by
  rw [(reads_loadTable d).result_eq w, ← hfile]
  cases htable : d.toTable (w.files.readFile d.path) with
  | error e' => simp [Dataset.loadedIn_of_error htable]
  | ok table =>
    rw [Dataset.loadedIn_of_ok htable]
    split <;> simp

theorem loadTable_eq_ok_iff :
    (outcome (loadTable v d) w).1 = .ok table ↔
      d.toTable (.ok bytes) = .ok table ∧ ¬ table.BreaksOff v := by
  rw [(reads_loadTable d).result_eq w, Dataset.loadedIn_eq_ok_iff, hfile]

theorem loadTable_eq_countOverflow_iff :
    (outcome (loadTable v d) w).1 = .error .countOverflow ↔
      ∃ table, d.toTable (.ok bytes) = .ok table ∧ table.BreaksOff v := by
  rw [(reads_loadTable d).result_eq w, ← hfile]
  cases htable : d.toTable (w.files.readFile d.path) with
  | error e => simp [Dataset.loadedIn_of_error htable]
  | ok table =>
    rw [Dataset.loadedIn_of_ok htable]
    split
    · next hbreaks => simp [hbreaks]
    · next hkept => simp [hkept]

/-- A content that makes a table is loaded, unless that breaks the run off. -/
theorem loadTable_of_toTable (h : d.toTable (.ok bytes) = .ok table) :
    let run := outcome (loadTable v d) w
    (run.1 = .ok table ↔ ¬ table.BreaksOff v) ∧
      (run.1 = .error .countOverflow ↔ table.BreaksOff v) := by
  intro run
  rw [loadTable_eq_ok_iff hfile, loadTable_eq_countOverflow_iff hfile, h]
  simp

end

/-! ### Which contents are loaded -/

/-- A readable file is loaded exactly if it is the content of a measurement file, unless its error
counts break the run off, and then with just the rows of the content.  Any other content is
malformed, and never for want of a column in a record.  Nothing but the log is changed. -/
theorem loadTable_eq_ok_iff_isMeasurementFile (v : Verbosity) {d : Dataset} {w : World}
    {bytes : List UInt8} (hfile : w.files.readFile d.path = .ok bytes) :
    let run := outcome (loadTable v d) w
    (∀ table, run.1 = .ok table ↔ ∃ rows, table = d.tableWith rows ∧
      IsMeasurementFile bytes rows ∧ ¬ table.BreaksOff v) ∧
    (run.1 = .error .countOverflow ↔ ∃ rows, IsMeasurementFile bytes rows ∧
      (d.tableWith rows).BreaksOff v) ∧
    ((∃ rows, IsMeasurementFile bytes rows) ∨
      ∃ fault, run.1 = .error (.table (.malformed d.path fault))) ∧
    (∀ position column, run.1 ≠
      .error (.table (.malformed d.path (.record position (.cell (.missingColumn column)))))) ∧
    w.SameResults run.2 := by
  intro run
  obtain ⟨haccepts, hrefuses, hcolumns⟩ := d.toTable_eq_ok_iff_isMeasurementFile bytes
  refine ⟨fun table => ?_, ?_, ?_, fun position column => ?_, ?_⟩
  · rw [loadTable_eq_ok_iff hfile, haccepts, ← exists_and_right]
    simp only [and_assoc, Dataset.tableWith]
  · rw [loadTable_eq_countOverflow_iff hfile]
    simp [haccepts, Dataset.tableWith]
  · refine hrefuses.imp_right fun ⟨fault, hfault⟩ => ⟨fault, ?_⟩
    exact (loadTable_eq_table_error_iff hfile).mpr hfault
  · rw [ne_eq, loadTable_eq_table_error_iff hfile]
    exact hcolumns position column
  · exact ((reads_loadTable d).spec (w := w) rfl).2

/-- A header line, a record whose line end is cut in two, and the rest of it with another record. -/
def sampleHeader : List UInt8 := "tRCD,retention,FehlerProzent,FehlerAbs\r\n".toUTF8.toList

def sampleFirst : List UInt8 := "10,1,2,18446744073709551615\r".toUTF8.toList

def sampleSecond : List UInt8 := "\n11,3,4,1".toUTF8.toList

/-- A measurement file, in a world with nothing else. -/
def sampleDataset : Dataset := .ofPath ⟨"a.csv"⟩

def sampleWorld (bytes : List UInt8) : World :=
  .ofFiles ((FileTree.bare []).put ["a.csv"] (.file (.bytes bytes)))

theorem readFile_sampleWorld (bytes : List UInt8) :
    (sampleWorld bytes).files.readFile sampleDataset.path = .ok bytes := rfl

/-- Rows whose error counts together leave their word. -/
def overflowingRows : List Row := [⟨10, 2, 1, some Decimal.max64⟩, ⟨11, 4, 3, some 1⟩]

theorem breaksOff_overflowingRows :
    (sampleDataset.tableWith overflowingRows).BreaksOff (.upTo .debug) :=
  ⟨by decide +kernel, by decide +kernel⟩

/-- The table with both records is loaded, unless it is reported. -/
theorem loadTable_overflowingRows :
    let w := sampleWorld (sampleHeader ++ sampleFirst ++ sampleSecond)
    w.files.readFile sampleDataset.path = .ok (sampleHeader ++ sampleFirst ++ sampleSecond) ∧
      (outcome (loadTable .silent sampleDataset) w).1 =
        .ok (sampleDataset.tableWith overflowingRows) ∧
      (outcome (loadTable (.upTo .debug) sampleDataset) w).1 = .error .countOverflow := by
  intro w
  have hfile := readFile_sampleWorld (sampleHeader ++ sampleFirst ++ sampleSecond)
  have hcontent : IsMeasurementFile (sampleHeader ++ sampleFirst ++ sampleSecond)
      overflowingRows := rowsOfBytes_eq_ok_iff.mp (by decide +kernel)
  obtain ⟨hok, -⟩ := loadTable_eq_ok_iff_isMeasurementFile .silent hfile
  obtain ⟨-, hoverflow, -⟩ := loadTable_eq_ok_iff_isMeasurementFile (.upTo .debug) hfile
  refine ⟨hfile, (hok _).mpr ⟨_, rfl, hcontent, Table.not_breaksOff_of_reports rfl _⟩, ?_⟩
  exact hoverflow.mpr ⟨_, hcontent, breaksOff_overflowingRows⟩

/-! ### Layouts -/

/-- However rows are written, they are loaded, in their order and bit for bit, unless their error
counts break the run off, which does not depend on the layout either. -/
theorem loadTable_of_writesRows (v : Verbosity) {d : Dataset} {w : World} {rows : List Row}
    {bytes : List UInt8} (hfile : w.files.readFile d.path = .ok bytes)
    (hfinite : ∀ row ∈ rows, row.IsFinite) (h : WritesRows rows bytes) :
    let run := outcome (loadTable v d) w
    let table := d.tableWith rows
    (run.1 = .ok table ↔ ¬ table.BreaksOff v) ∧
      (run.1 = .error .countOverflow ↔ table.BreaksOff v) :=
  loadTable_of_toTable hfile (d.toTable_of_writesRows hfinite h)

theorem loadTable_sampleLayout :
    let rows : List Row := [⟨15, 0.5, 2, some 255⟩]
    (sampleWorld sampleLayout).files.readFile sampleDataset.path = .ok sampleLayout ∧
      (∀ row ∈ rows, row.IsFinite) ∧ WritesRows rows sampleLayout ∧
      (outcome (loadTable (.upTo .trace) sampleDataset) (sampleWorld sampleLayout)).1 =
        .ok (sampleDataset.tableWith rows) := by
  intro rows
  have hfile := readFile_sampleWorld sampleLayout
  have hfinite : ∀ row ∈ rows, row.IsFinite := by
    intro row hrow
    rw [List.mem_singleton.mp hrow]
    exact ⟨by decide +kernel, by decide +kernel, by decide +kernel⟩
  have hcount : (sampleDataset.tableWith rows).totalErrorCount = .known 255 := rfl
  have hkept : ¬ (sampleDataset.tableWith rows).BreaksOff (.upTo .trace) :=
    fun h => nomatch hcount.symm.trans h.overflow
  exact ⟨hfile, hfinite, writesRows_sampleLayout,
    (loadTable_of_writesRows (.upTo .trace) hfile hfinite writesRows_sampleLayout).1.mpr hkept⟩

/-! ### Contents in pieces -/

/-- Under one header line, a content whose records are cut at a record end is loaded piece by piece.
The rows of both pieces make the rows of the whole, unless all error counts together break the run
off; a fault of the first piece is the fault of the whole, and one of the second piece stays where
it is but for the records before it. -/
theorem loadTable_append (v : Verbosity) {d : Dataset} {header first second : List UInt8}
    (hheader : IsHeaderLine header) (hfirst : EndsRecord first) {w₁ w₂ w : World}
    (hfile₁ : w₁.files.readFile d.path = .ok (header ++ first))
    (hfile₂ : w₂.files.readFile d.path = .ok (header ++ second))
    (hfile : w.files.readFile d.path = .ok (header ++ first ++ second)) :
    let load w := (outcome (loadTable v d) w).1
    (∀ a b, load w₁ = .ok a → load w₂ = .ok b →
      let table : Table := { a with rows := a.rows ++ b.rows }
      (load w = .ok table ↔ ¬ table.BreaksOff v) ∧
        (load w = .error .countOverflow ↔ table.BreaksOff v)) ∧
    (∀ fault, load w₁ = .error (.table (.malformed d.path fault)) →
      load w = .error (.table (.malformed d.path fault))) ∧
    ∀ a p cause, load w₁ = .ok a →
      load w₂ = .error (.table (.malformed d.path (.record p cause))) →
      ∃ (i : Nat) (r r' : Csv.Record), (Csv.records (header ++ second))[i]? = some r ∧
        (Csv.records (header ++ first ++ second))[i + recordCount first]? = some r' ∧
        r.position = p ∧ r'.fields = r.fields ∧
        r'.position.record = p.record + recordCount first ∧
        load w = .error (.table (.malformed d.path (.record r'.position cause))) := by
  intro load
  obtain ⟨hboth, hfault, hrecord⟩ := d.toTable_append hheader hfirst second
  refine ⟨fun a b ha hb => ?_, fun fault h => ?_, fun a p cause ha hb => ?_⟩
  · have ha' := ((loadTable_eq_ok_iff hfile₁).mp ha).1
    have hb' := ((loadTable_eq_ok_iff hfile₂).mp hb).1
    exact loadTable_of_toTable hfile (hboth a b ha' hb')
  · have h' := (loadTable_eq_table_error_iff hfile₁).mp h
    exact (loadTable_eq_table_error_iff hfile).mpr (hfault _ h')
  · have ha' := ((loadTable_eq_ok_iff hfile₁).mp ha).1
    have hb' := (loadTable_eq_table_error_iff hfile₂).mp hb
    obtain ⟨i, r, r', hr, hr', hp, hfields, hnumber, herror⟩ := hrecord a p cause ha' hb'
    exact ⟨i, r, r', hr, hr', hp, hfields, hnumber,
      (loadTable_eq_table_error_iff hfile).mpr herror⟩

/-- Both pieces are loaded even if tables are reported, and the whole if they are not. -/
theorem loadTable_append_sample :
    let load v bytes := (outcome (loadTable v sampleDataset) (sampleWorld bytes)).1
    let table := sampleDataset.tableWith
    IsHeaderLine sampleHeader ∧ EndsRecord sampleFirst ∧
      (∀ v, load v (sampleHeader ++ sampleFirst) = .ok (table (overflowingRows.take 1))) ∧
      (∀ v, load v (sampleHeader ++ sampleSecond) = .ok (table (overflowingRows.drop 1))) ∧
      load .silent (sampleHeader ++ sampleFirst ++ sampleSecond) = .ok (table overflowingRows) ∧
      load (.upTo .debug) (sampleHeader ++ sampleFirst ++ sampleSecond) =
        .error .countOverflow := by
  intro load table
  have hheader : IsHeaderLine sampleHeader :=
    ⟨by decide +kernel, endsRecord_iff.mpr (by decide +kernel)⟩
  have hfirst : EndsRecord sampleFirst := endsRecord_iff.mpr (by decide +kernel)
  -- The counts of one piece alone do not overflow.
  have hload (bytes rows) (htable : sampleDataset.toTable (.ok bytes) = .ok (table rows))
      (hcount : (table rows).totalErrorCount ≠ .overflow) (v : Verbosity) :
      load v bytes = .ok (table rows) :=
    (loadTable_eq_ok_iff (readFile_sampleWorld bytes)).mpr ⟨htable, fun h => hcount h.overflow⟩
  have hone := hload (sampleHeader ++ sampleFirst) (overflowingRows.take 1)
    (by decide +kernel) (by decide +kernel)
  have hother := hload (sampleHeader ++ sampleSecond) (overflowingRows.drop 1)
    (by decide +kernel) (by decide +kernel)
  have hwhole (v : Verbosity) := (loadTable_append v hheader hfirst (readFile_sampleWorld _)
    (readFile_sampleWorld _) (readFile_sampleWorld _)).1 _ _ (hone v) (hother v)
  exact ⟨hheader, hfirst, hone, hother,
    (hwhole .silent).1.mpr (Table.not_breaksOff_of_reports rfl _),
    (hwhole (.upTo .debug)).2.mpr breaksOff_overflowingRows⟩

end DramTiming
