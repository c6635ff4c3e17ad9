import DramTiming.Proofs.Table.Cells
import DramTiming.Proofs.Text.Utf8
import DramTiming.Table.Reader

/-!
# Which files make a table

`IsMeasurementFile bytes rows` describes the content of a measurement file without its reader: the
names in the header, and what each further record has to hold.  Main statement: a readable file
makes a table exactly if it is such a content, the rows of the table are the ones it stands for, and
every other content is refused as malformed (`Dataset.toTable_eq_ok_iff_isMeasurementFile`).
-/

namespace DramTiming

/-! ### Texts in fields -/

/-- A field is the UTF-8 form of a text with white space around it. -/
def Csv.IsText (field : List UInt8) (text : String) : Prop :=
  ∃ cs, field = Text.encode cs ∧ text = String.ofList (Text.trim cs)

/-- Fields are read as texts if what is read of each one, `f field`, stands for the same text. -/
theorem decodeFields_map_eq_ok_iff {f : List UInt8 → List UInt8}
    (hf : ∀ field text, (∃ cs, Text.decode (f field) = .ok cs ∧ text = String.ofList (Text.trim cs))
      ↔ Csv.IsText field text)
    {k : Nat} {fields : List (List UInt8)} {texts : List String} :
    decodeFields k (fields.map f) = .ok texts ↔ List.Forall₂ Csv.IsText fields texts := by
  induction fields generalizing k texts with
  | nil =>
    rw [List.map_nil, decodeFields, List.forall₂_nil_left_iff, Except.ok.injEq, eq_comm]
  | cons field fields ih =>
    rw [List.map_cons, List.forall₂_cons_left_iff, decodeFields]
    cases hdecode : Text.decode (f field) with
    | error validBytes =>
      constructor
      · intro h
        cases h
      · rintro ⟨text, _, htext, -⟩
        obtain ⟨cs, hcs, -⟩ := (hf field text).mpr htext
        rw [hdecode] at hcs
        cases hcs
    | ok cs =>
      dsimp only
      constructor
      · intro h
        cases hrest : decodeFields (k + 1) (fields.map f) with
        | error e => rw [hrest] at h; cases h
        | ok rest =>
          rw [hrest] at h
          cases h
          exact ⟨_, rest, (hf _ _).mp ⟨cs, hdecode, rfl⟩, ih.mp hrest, rfl⟩
      · rintro ⟨text, rest, htext, hrest, rfl⟩
        obtain ⟨cs', hcs', rfl⟩ := (hf _ _).mpr htext
        rw [hdecode] at hcs'
        cases hcs'
        rw [ih.mpr hrest]
        rfl

theorem decodeFields_eq_ok_iff {k : Nat} {fields : List (List UInt8)} {texts : List String} :
    decodeFields k fields = .ok texts ↔ List.Forall₂ Csv.IsText fields texts := by
  have h : decodeFields k (fields.map id) = .ok texts ↔ List.Forall₂ Csv.IsText fields texts :=
    decodeFields_map_eq_ok_iff fun field text => by simp [Csv.IsText, Text.decode_eq_ok_iff]
  rwa [List.map_id] at h

/-- Trimming the bytes before reading them makes no difference. -/
theorem decodeFields_trimField_eq_ok_iff {k : Nat} {fields : List (List UInt8)}
    {texts : List String} :
    decodeFields k (fields.map Csv.trimField) = .ok texts ↔
      List.Forall₂ Csv.IsText fields texts := by
  apply decodeFields_map_eq_ok_iff
  intro field text
  have h := @Text.decode_trimField_iff field text.toList
  constructor
  · rintro ⟨cs, hcs, rfl⟩
    obtain ⟨ds, hds, htrim⟩ := h.mp ⟨cs, hcs, by rw [String.toList_ofList]⟩
    exact ⟨ds, hds, by rw [htrim, String.ofList_toList]⟩
  · rintro ⟨cs, hcs, rfl⟩
    obtain ⟨ds, hds, htrim⟩ := h.mpr ⟨cs, hcs, by rw [String.toList_ofList]⟩
    exact ⟨ds, hds, by rw [htrim, String.ofList_toList]⟩

/-! ### The content of a measurement file -/

/-- The names of a header: every required column is there. -/
structure IsHeader (names : List String) : Prop where
  trcd : "tRCD" ∈ names ∨ "tRCD in ns" ∈ names
  retention : "retention" ∈ names
  errorPercent : "FehlerProzent" ∈ names

/-- A record under a header with these names: as many texts as names, whose recognised columns make
the row. -/
def MakesRow (names : List String) (record : Csv.Record) (row : Row) : Prop :=
  ∃ texts, List.Forall₂ Csv.IsText record.fields texts ∧ texts.length = names.length ∧
    Cells.AreRow ((names.map Column.ofName?).zip texts) row

/-- The content of a measurement file with these rows: a header, and one record for each row. -/
def IsMeasurementFile (bytes : List UInt8) (rows : List Row) : Prop :=
  ∃ header records names, Csv.records bytes = header :: records ∧
    List.Forall₂ Csv.IsText header.fields names ∧ IsHeader names ∧
    List.Forall₂ (MakesRow names) records rows

/-! ### The header -/

theorem Column.ofName?_eq_some_iff {name : String} {column : Column} :
    ofName? name = some column ↔
      match column with
      | trcd => name = "tRCD" ∨ name = "tRCD in ns"
      | retention => name = "retention"
      | errorPercent => name = "FehlerProzent"
      | errorCount => name = "FehlerAbs" := by
  unfold ofName?
  cases column <;> split <;> simp_all

theorem readHeader_eq_ok_iff {record : Csv.Record} {names : List String} :
    readHeader record = .ok names ↔ List.Forall₂ Csv.IsText record.fields names := by
  rw [← decodeFields_eq_ok_iff (k := 0)]
  unfold readHeader
  split
  · next h => simp [h]
  · next h => simp [h]

theorem mem_columns_iff {names : List String} {column : Column} :
    some column ∈ names.map Column.ofName? ↔
      match column with
      | .trcd => "tRCD" ∈ names ∨ "tRCD in ns" ∈ names
      | .retention => "retention" ∈ names
      | .errorPercent => "FehlerProzent" ∈ names
      | .errorCount => "FehlerAbs" ∈ names := by
  rw [List.mem_map]
  simp only [Column.ofName?_eq_some_iff]
  cases column
  · constructor
    · rintro ⟨name, hmem, rfl | rfl⟩
      · exact .inl hmem
      · exact .inr hmem
    · rintro (hmem | hmem)
      · exact ⟨_, hmem, .inl rfl⟩
      · exact ⟨_, hmem, .inr rfl⟩
  all_goals exact exists_eq_right

theorem isHeader_iff {names : List String} :
    IsHeader names ↔ ∀ column ∈ Column.required, some column ∈ names.map Column.ofName? := by
  simp only [Column.required, List.forall_mem_cons, mem_columns_iff]
  constructor
  · rintro ⟨htrcd, hretention, hpercent⟩
    exact ⟨htrcd, hretention, hpercent, by simp⟩
  · rintro ⟨htrcd, hretention, hpercent, -⟩
    exact ⟨htrcd, hretention, hpercent⟩

/-- A header without any name lacks a required column too, so its check decides nothing here. -/
theorem not_all_isEmpty_of_isHeader {names : List String} (h : IsHeader names) :
    ¬ names.all String.isEmpty = true := by
  intro hall
  have hempty := List.all_eq_true.mp hall _ h.retention
  exact absurd hempty (by decide)

theorem readColumns_eq_ok_iff {names : List String} {columns : List (Option Column)} :
    readColumns names = .ok columns ↔ IsHeader names ∧ columns = names.map Column.ofName? := by
  unfold readColumns
  dsimp only
  split
  · next hempty =>
    constructor
    · intro h
      cases h
    · rintro ⟨h, -⟩
      exact absurd hempty (not_all_isEmpty_of_isHeader h)
  · rw [isHeader_iff]
    split
    · next column hfind =>
      have hmissing := List.find?_some hfind
      have hmem := List.mem_of_find?_eq_some hfind
      constructor
      · intro h
        cases h
      · rintro ⟨h, -⟩
        simp [h column hmem] at hmissing
    · next hfind =>
      have hall : ∀ column ∈ Column.required, some column ∈ names.map Column.ofName? := by
        simpa using hfind
      constructor
      · rintro ⟨⟩
        exact ⟨hall, rfl⟩
      · rintro ⟨-, rfl⟩
        rfl

/-- The columns that a header record names. -/
def headerColumns (header : Csv.Record) : Except TableFault (List (Option Column)) := do
  readColumns (← readHeader header)

theorem headerColumns_eq_ok_iff {header : Csv.Record} {columns : List (Option Column)} :
    headerColumns header = .ok columns ↔
      ∃ names, List.Forall₂ Csv.IsText header.fields names ∧ IsHeader names ∧
        columns = names.map Column.ofName? := by
  simp only [headerColumns, bind_eq_ok_iff, readHeader_eq_ok_iff, readColumns_eq_ok_iff]

/-- A fault of the header is not put down to a record. -/
theorem headerColumns_ne_record {header : Csv.Record} {position : Csv.Position}
    {cause : RecordFault} : headerColumns header ≠ .error (.record position cause) := by
  have hcolumns (names : List String) : readColumns names ≠ .error (.record position cause) := by
    unfold readColumns
    dsimp only
    split
    · simp
    · split <;> simp
  unfold headerColumns
  cases hnames : readHeader header with
  | ok names => exact hcolumns names
  | error fault =>
    intro h
    unfold readHeader at hnames
    cases h
    split at hnames <;> cases hnames

/-! ### Records -/

theorem readRow_eq_ok_iff {names : List String} {record : Csv.Record} {row : Row} :
    readRow (names.map Column.ofName?) record = .ok row ↔ MakesRow names record row := by
  unfold readRow
  rw [List.length_map]
  split
  · next hlength =>
    constructor
    · intro h
      cases h
    · rintro ⟨texts, htexts, hlength', -⟩
      exact absurd (htexts.length_eq.trans hlength') hlength
  next hlength =>
  rw [not_not] at hlength
  split
  · next hdecode =>
    constructor
    · intro h
      cases h
    · rintro ⟨texts, htexts, -⟩
      rw [decodeFields_trimField_eq_ok_iff.mpr htexts] at hdecode
      cases hdecode
  next texts hdecode =>
  have htexts := decodeFields_trimField_eq_ok_iff.mp hdecode
  have hmakes : MakesRow names record row ↔
      Cells.AreRow ((names.map Column.ofName?).zip texts) row := by
    constructor
    · rintro ⟨texts', htexts', -, hrow⟩
      rw [decodeFields_trimField_eq_ok_iff.mpr htexts'] at hdecode
      cases hdecode
      exact hrow
    · exact fun hrow => ⟨texts, htexts, htexts.length_eq.symm.trans hlength, hrow⟩
  rw [hmakes]
  constructor
  · intro h
    split at h
    · cases h
    next read hread =>
    split at h
    · cases h
    next row' hrow =>
    cases h
    exact Cells.areRow_of_readAll hread hrow
  · intro h
    obtain ⟨read, hread, hrow⟩ := Cells.exists_readAll_of_areRow 0 h
    rw [hread]
    dsimp only
    rw [hrow]

theorem readRows_eq_ok_iff {columns : List (Option Column)} {records : List Csv.Record}
    {rows : List Row} :
    readRows columns records = .ok rows ↔
      List.Forall₂ (fun record row => readRow columns record = .ok row) records rows := by
  induction records generalizing rows with
  | nil => rw [readRows, List.forall₂_nil_left_iff, Except.ok.injEq, eq_comm]
  | cons record records ih =>
    rw [readRows, List.forall₂_cons_left_iff]
    cases hrow : readRow columns record with
    | error fault => simp
    | ok row =>
      dsimp only
      constructor
      · intro h
        cases hrest : readRows columns records with
        | error fault => rw [hrest] at h; cases h
        | ok rest =>
          rw [hrest] at h
          cases h
          exact ⟨row, rest, rfl, ih.mp hrest, rfl⟩
      · rintro ⟨_, rest, ⟨⟩, hrest, rfl⟩
        rw [ih.mpr hrest]
        rfl

/-! ### Missing columns -/

/-- The header check leaves no column for a record to miss. -/
theorem readRow_ne_missingColumn {columns : List (Option Column)} {record : Csv.Record}
    {missing : Column} (hrequired : ∀ column ∈ Column.required, some column ∈ columns) :
    readRow columns record ≠ .error (.cell (.missingColumn missing)) := by
  unfold readRow
  split
  · simp
  next hlength =>
  split
  · simp
  next texts hdecode =>
  have hlength' : columns.length ≤ texts.length := by
    rw [← (decodeFields_trimField_eq_ok_iff.mp hdecode).length_eq]
    omega
  split
  · next fault hread =>
    intro h
    cases h
    exact Cells.readAll_ne_missingColumn hread
  next read hread =>
  split
  · next fault hrow =>
    intro h
    cases h
    refine Cells.toRow_ne_missingColumn hread (fun column hcolumn => ?_) hrow
    have hmem := hrequired column hcolumn
    rw [← List.map_fst_zip hlength'] at hmem
    simpa [Cells.recognised] using hmem
  · simp

/-- The first record that makes no row decides. -/
theorem readRows_eq_error_iff {columns : List (Option Column)} {records : List Csv.Record}
    {fault : TableFault} :
    readRows columns records = .error fault ↔
      ∃ before record after rows cause, records = before ++ record :: after ∧
        readRows columns before = .ok rows ∧ readRow columns record = .error cause ∧
        fault = .record record.position cause := by
  induction records with
  | nil => simp [readRows]
  | cons record records ih =>
    rw [readRows]
    cases hrow : readRow columns record with
    | error cause =>
      constructor
      · rintro ⟨⟩
        exact ⟨[], record, records, [], cause, rfl, rfl, hrow, rfl⟩
      · rintro ⟨before, failing, after, rows, cause', hrecords, hbefore, hfailing, rfl⟩
        cases before with
        | nil =>
          cases hrecords
          rw [hrow] at hfailing
          cases hfailing
          rfl
        | cons first before =>
          cases hrecords
          rw [readRows, hrow] at hbefore
          cases hbefore
    | ok row =>
      dsimp only
      constructor
      · intro h
        have hrest : readRows columns records = .error fault := by
          cases hrest : readRows columns records with
          | error fault' => rw [hrest] at h; cases h; rfl
          | ok rest => rw [hrest] at h; cases h
        obtain ⟨before, failing, after, rows, cause, rfl, hbefore, hfailing, rfl⟩ := ih.mp hrest
        refine ⟨record :: before, failing, after, row :: rows, cause, rfl, ?_, hfailing, rfl⟩
        rw [readRows, hrow, hbefore]
        rfl
      · rintro ⟨before, failing, after, rows, cause, hrecords, hbefore, hfailing, rfl⟩
        cases before with
        | nil =>
          cases hrecords
          rw [hrow] at hfailing
          cases hfailing
        | cons first before =>
          cases hrecords
          have hrest : ∃ rest, readRows columns before = .ok rest := by
            rw [readRows, hrow] at hbefore
            cases hrest : readRows columns before with
            | error fault' => rw [hrest] at hbefore; cases hbefore
            | ok rest => exact ⟨rest, rfl⟩
          obtain ⟨rest, hrest⟩ := hrest
          rw [ih.mpr ⟨before, failing, after, rest, cause, rfl, hrest, hfailing, rfl⟩]
          rfl

/-! ### Files -/

/-- A file is read as its header and then as its other records. -/
theorem rowsOfBytes_of_records {bytes : List UInt8} {header : Csv.Record}
    {records : List Csv.Record} (h : Csv.records bytes = header :: records) :
    rowsOfBytes bytes = headerColumns header >>= fun columns => readRows columns records := by
  rw [rowsOfBytes, h, headerColumns, bind_assoc]

/-- The bytes of a measurement file give its rows, and no other bytes give any. -/
theorem rowsOfBytes_eq_ok_iff {bytes : List UInt8} {rows : List Row} :
    rowsOfBytes bytes = .ok rows ↔ IsMeasurementFile bytes rows := by
  unfold IsMeasurementFile
  cases hrecords : Csv.records bytes with
  | nil => simp [rowsOfBytes, hrecords]
  | cons header records =>
    rw [rowsOfBytes_of_records hrecords, bind_eq_ok_iff]
    simp only [headerColumns_eq_ok_iff, readRows_eq_ok_iff]
    constructor
    · rintro ⟨_, ⟨names, hnames, hheader, rfl⟩, hrows⟩
      simp only [readRow_eq_ok_iff] at hrows
      exact ⟨header, records, names, rfl, hnames, hheader, hrows⟩
    · rintro ⟨_, _, names, ⟨⟩, hnames, hheader, hrows⟩
      refine ⟨names.map Column.ofName?, ⟨names, hnames, hheader, rfl⟩, ?_⟩
      simpa only [readRow_eq_ok_iff] using hrows

theorem rowsOfBytes_ne_missingColumn {bytes : List UInt8} {position : Csv.Position}
    {missing : Column} :
    rowsOfBytes bytes ≠ .error (.record position (.cell (.missingColumn missing))) := by
  intro h
  cases hrecords : Csv.records bytes with
  | nil => simp [rowsOfBytes, hrecords] at h
  | cons header records =>
    rw [rowsOfBytes_of_records hrecords] at h
    cases hcolumns : headerColumns header with
    | error fault =>
      rw [hcolumns] at h
      cases h
      exact headerColumns_ne_record hcolumns
    | ok columns =>
      rw [hcolumns] at h
      obtain ⟨names, -, hheader, rfl⟩ := headerColumns_eq_ok_iff.mp hcolumns
      obtain ⟨_, record, _, _, _, -, -, hrow, hfault⟩ := readRows_eq_error_iff.mp h
      cases hfault
      exact readRow_ne_missingColumn (isHeader_iff.mp hheader) hrow

theorem Dataset.toTable_bytes_eq_ok_iff {d : Dataset} {bytes : List UInt8} {table : Table} :
    d.toTable (.ok bytes) = .ok table ↔
      ∃ rows, rowsOfBytes bytes = .ok rows ∧ table = ⟨d.labelOf, d.path, rows⟩ := by
  cases hrows : rowsOfBytes bytes with
  | error fault => simp [toTable, hrows]
  | ok rows => simp [toTable, hrows, eq_comm]

theorem Dataset.toTable_bytes_eq_error_iff {d : Dataset} {bytes : List UInt8} {e : TableError} :
    d.toTable (.ok bytes) = .error e ↔
      ∃ fault, rowsOfBytes bytes = .error fault ∧ e = .malformed d.path fault := by
  cases hrows : rowsOfBytes bytes with
  | error fault => simp [toTable, hrows, eq_comm]
  | ok rows => simp [toTable, hrows]

/-- A readable file makes a table exactly if it is the content of a measurement file, and then the
table has just its rows; any other file is malformed, and never for want of a column in a record. -/
theorem Dataset.toTable_eq_ok_iff_isMeasurementFile (d : Dataset) (bytes : List UInt8) :
    (∀ table, d.toTable (.ok bytes) = .ok table ↔
      ∃ rows, table = ⟨d.labelOf, d.path, rows⟩ ∧ IsMeasurementFile bytes rows) ∧
    ((∃ rows, IsMeasurementFile bytes rows) ∨
      ∃ fault, d.toTable (.ok bytes) = .error (.malformed d.path fault)) ∧
    ∀ position column, d.toTable (.ok bytes)
      ≠ .error (.malformed d.path (.record position (.cell (.missingColumn column)))) := by
  refine ⟨fun table => ?_, ?_, fun position column h => ?_⟩
  · rw [toTable_bytes_eq_ok_iff]
    simp only [rowsOfBytes_eq_ok_iff, and_comm]
  · cases hrows : rowsOfBytes bytes with
    | ok rows => exact .inl ⟨rows, rowsOfBytes_eq_ok_iff.mp hrows⟩
    | error fault => exact .inr ⟨fault, toTable_bytes_eq_error_iff.mpr ⟨fault, hrows, rfl⟩⟩
  · obtain ⟨fault, hfault, heq⟩ := toTable_bytes_eq_error_iff.mp h
    cases heq
    exact rowsOfBytes_ne_missingColumn hfault

end DramTiming
