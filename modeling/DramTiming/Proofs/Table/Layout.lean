import DramTiming.Proofs.Csv.Layout
import DramTiming.Proofs.Table.Acceptance

/-!
# The ways to write a table

Rows can be written with their columns in any order, with other columns between them, and with any
literal for a number.  `WritesRows rows bytes` is the relation between the rows and all the files
they can be written as; `Csv.WritesFile` adds the freedom of the records.  Main statement: from each
of these files just the rows are read back (`Dataset.toTable_of_writesRows`).
-/

namespace DramTiming

/-! ### The reverse relation -/

/-- A field is the UTF-8 form of a text with any white space before and after it. -/
def Csv.Pads (cs : List Char) (field : List UInt8) : Prop :=
  ∃ before after, (∀ c ∈ before, Text.isBlank c) ∧ (∀ c ∈ after, Text.isBlank c) ∧
    field = Text.encode (before ++ cs ++ after)

/-- A field of the header: one of the column's names, or another name if it is not recognised. -/
def WritesName (column : Option Column) (field : List UInt8) : Prop :=
  ∃ name, Text.trim name = name ∧ Column.ofName? (String.ofList name) = column ∧
    Csv.Pads name field

/-- A text stands for what the row has in a column; in a column that is not recognised, any does. -/
inductive Row.Stands (row : Row) : Option Column → List Char → Prop
  | trcd {cs} : Binary64.IsLiteral cs row.trcd → Stands row (some .trcd) cs
  | retention {cs} : Binary64.IsLiteral cs row.retention → Stands row (some .retention) cs
  | errorPercent {cs} : Binary64.IsLiteral cs row.errorPercent → Stands row (some .errorPercent) cs
  | errorCount {cs} : IsCount cs row.errorCount → Stands row (some .errorCount) cs
  | unknown {cs} : Stands row none cs

/-- A field of a row's record. -/
def Row.WritesCell (row : Row) (column : Option Column) (field : List UInt8) : Prop :=
  ∃ cs, row.Stands column cs ∧ Csv.Pads cs field

/-- The fields of a header with each required column, and no recognised one twice. -/
structure WritesHeader (columns : List (Option Column)) (header : List (List UInt8)) : Prop where
  nodup : (columns.filterMap id).Nodup
  required : ∀ column ∈ Column.required, some column ∈ columns
  names : List.Forall₂ WritesName columns header

/-- A file with these rows.  Only rows without counts can do without a column for them. -/
def WritesRows (rows : List Row) (bytes : List UInt8) : Prop :=
  ∃ columns header cells, WritesHeader columns header ∧
    (some .errorCount ∈ columns ∨ ∀ row ∈ rows, row.errorCount = none) ∧
    List.Forall₂ (fun row fields => List.Forall₂ row.WritesCell columns fields) rows cells ∧
    Csv.WritesFile (header :: cells) bytes

/-- The numbers of a row are finite. -/
structure Row.IsFinite (row : Row) : Prop where
  trcd : row.trcd.isFinite
  retention : row.retention.isFinite
  errorPercent : row.errorPercent.isFinite

/-! ### Rows that are read -/

theorem MakesRow.isFinite {names : List String} {record : Csv.Record} {row : Row}
    (h : MakesRow names record row) : row.IsFinite := by
  obtain ⟨texts, -, -, hrow⟩ := h
  obtain ⟨_, _, _, htrcd⟩ := hrow.trcd
  obtain ⟨_, _, _, hretention⟩ := hrow.retention
  obtain ⟨_, _, _, hpercent⟩ := hrow.errorPercent
  exact ⟨htrcd, hretention, hpercent⟩

/-- A file that is read as a table holds finite numbers. -/
theorem Dataset.isFinite_of_toTable {d : Dataset} {content : Except FileError (List UInt8)}
    {t : Table} (h : d.toTable content = .ok t) : ∀ row ∈ t.rows, row.IsFinite := by
  cases content with
  | error cause => cases cause <;> cases h
  | ok bytes =>
    obtain ⟨rows, hrows, rfl⟩ := toTable_bytes_eq_ok_iff.mp h
    obtain ⟨_, records, _, -, -, -, hmakes⟩ := rowsOfBytes_eq_ok_iff.mp hrows
    exact ((List.forall₂_and_left _ _).mp
      (hmakes.flip.imp fun _ _ hmake => ⟨MakesRow.isFinite hmake, hmake⟩)).1

/-! ### Fields -/

/-- White space around a text does not count. -/
theorem Csv.Pads.isText {cs : List Char} {field : List UInt8} (h : Pads cs field) :
    IsText field (String.ofList (Text.trim cs)) := by
  obtain ⟨before, after, hbefore, hafter, rfl⟩ := h
  refine ⟨_, rfl, ?_⟩
  rw [Text.trim, Text.trim, Text.trimBoth_append_append hbefore hafter]

/-- What stands for a number or a count has no white space around it. -/
theorem Row.Stands.trim {row : Row} {column : Option Column} {cs : List Char}
    (h : row.Stands column cs) : row.Stands column (Text.trim cs) := by
  have hself (hblank : ∀ c ∈ cs, Text.isBlank c = false) : Text.trim cs = cs :=
    Text.trimBoth_eq_self hblank
  cases h with
  | trcd hliteral => exact .trcd (by rwa [hself hliteral.not_isBlank])
  | retention hliteral => exact .retention (by rwa [hself hliteral.not_isBlank])
  | errorPercent hliteral => exact .errorPercent (by rwa [hself hliteral.not_isBlank])
  | errorCount hcount => exact .errorCount (by rwa [hself hcount.not_isBlank])
  | unknown => exact .unknown

/-- The names of a header are read back. -/
theorem exists_names {columns : List (Option Column)} {header : List (List UInt8)}
    (h : List.Forall₂ WritesName columns header) :
    ∃ names, List.Forall₂ Csv.IsText header names ∧ names.map Column.ofName? = columns := by
  induction h with
  | nil => exact ⟨[], .nil, rfl⟩
  | cons hname _ ih =>
    obtain ⟨name, htrim, hcolumn, hpads⟩ := hname
    obtain ⟨names, hnames, hcolumns⟩ := ih
    refine ⟨String.ofList name :: names, .cons ?_ hnames, ?_⟩
    · have htext := hpads.isText
      rwa [htrim] at htext
    · rw [List.map_cons, hcolumn, hcolumns]

/-- The texts of a record are read back, and stand for the row. -/
theorem exists_texts {row : Row} {columns : List (Option Column)} {fields : List (List UInt8)}
    (h : List.Forall₂ row.WritesCell columns fields) :
    ∃ texts : List String, List.Forall₂ Csv.IsText fields texts ∧
      List.Forall₂ (fun column text => row.Stands column text.toList) columns texts := by
  induction h with
  | nil => exact ⟨[], .nil, .nil⟩
  | cons hcell _ ih =>
    obtain ⟨cs, hstands, hpads⟩ := hcell
    obtain ⟨texts, htexts, hall⟩ := ih
    refine ⟨_ :: texts, .cons hpads.isText htexts, .cons ?_ hall⟩
    rw [String.toList_ofList]
    exact hstands.trim

/-! ### Rows -/

theorem recognised_zip {columns : List (Option Column)} {texts : List String}
    (h : columns.length = texts.length) :
    Cells.recognised (columns.zip texts) = columns.filterMap id := by
  have hfst : (columns.zip texts).map Prod.fst = columns := List.map_fst_zip h.le
  rw [Cells.recognised, ← hfst, List.filterMap_map, hfst]
  rfl

/-- The texts under the columns of a header make the row. -/
theorem areRow_of_stands {row : Row} {columns : List (Option Column)} {texts : List String}
    (hnodup : (columns.filterMap id).Nodup)
    (hrequired : ∀ column ∈ Column.required, some column ∈ columns)
    (hcount : some .errorCount ∈ columns ∨ row.errorCount = none) (hfinite : row.IsFinite)
    (h : List.Forall₂ (fun column text => row.Stands column text.toList) columns texts) :
    Cells.AreRow (columns.zip texts) row := by
  -- Under a column that is there stands a text for what the row has in it.
  have hcell {column : Column} (hmem : some column ∈ columns) :
      ∃ text, (some column, text) ∈ columns.zip texts ∧ row.Stands (some column) text.toList := by
    rw [← List.map_fst_zip h.length_eq.le] at hmem
    obtain ⟨⟨_, text⟩, hmem, rfl⟩ := List.mem_map.mp hmem
    exact ⟨text, hmem, (List.forall₂_iff_zip.mp h).2 hmem⟩
  refine ⟨by rwa [recognised_zip h.length_eq], ?_, ?_, ?_, ?_⟩
  · obtain ⟨text, hmem, hstands⟩ := hcell (hrequired .trcd (by decide))
    cases hstands with
    | trcd hliteral => exact ⟨text, hmem, hliteral, hfinite.trcd⟩
  · obtain ⟨text, hmem, hstands⟩ := hcell (hrequired .retention (by decide))
    cases hstands with
    | retention hliteral => exact ⟨text, hmem, hliteral, hfinite.retention⟩
  · obtain ⟨text, hmem, hstands⟩ := hcell (hrequired .errorPercent (by decide))
    cases hstands with
    | errorPercent hliteral => exact ⟨text, hmem, hliteral, hfinite.errorPercent⟩
  · by_cases hmem : some .errorCount ∈ columns
    · obtain ⟨text, hmem, hstands⟩ := hcell hmem
      cases hstands with
      | errorCount hcount => exact .inr ⟨text, hmem, hcount⟩
    · refine .inl ⟨?_, hcount.resolve_left hmem⟩
      rw [recognised_zip h.length_eq]
      simpa using hmem

/-! ### Files -/

theorem isMeasurementFile_of_writesRows {rows : List Row} {bytes : List UInt8}
    (hfinite : ∀ row ∈ rows, row.IsFinite) (h : WritesRows rows bytes) :
    IsMeasurementFile bytes rows := by
  obtain ⟨columns, header, cells, hheader, hcount, hcells, hfile⟩ := h
  have hfields := hfile.map_fields_records
  obtain ⟨record, records, hrecords, rfl, rfl⟩ := List.map_eq_cons_iff.mp hfields
  obtain ⟨names, hnames, rfl⟩ := exists_names hheader.names
  refine ⟨record, records, names, hrecords, hnames, isHeader_iff.mpr hheader.required, ?_⟩
  have hrows : ∀ row ∈ rows, row.IsFinite ∧
      (some .errorCount ∈ names.map Column.ofName? ∨ row.errorCount = none) := by
    intro row hmem
    exact ⟨hfinite row hmem, hcount.imp_right fun hnone => hnone row hmem⟩
  have hboth := (List.forall₂_and_left _ _).mpr ⟨hrows, List.forall₂_map_right_iff.mp hcells⟩
  apply List.Forall₂.flip
  apply hboth.imp
  rintro row record ⟨⟨hfinite, hcount⟩, hcells⟩
  obtain ⟨texts, htexts, hstands⟩ := exists_texts hcells
  refine ⟨texts, htexts, ?_, ?_⟩
  · rw [← hstands.length_eq, List.length_map]
  · exact areRow_of_stands hheader.nodup hheader.required hcount hfinite hstands

/-- However rows are written, they are read back, in their order and bit for bit. -/
theorem Dataset.toTable_of_writesRows (d : Dataset) {rows : List Row} {bytes : List UInt8}
    (hfinite : ∀ row ∈ rows, row.IsFinite) (h : WritesRows rows bytes) :
    d.toTable (.ok bytes) = .ok ⟨d.labelOf, d.path, rows⟩ :=
  toTable_bytes_eq_ok_iff.mpr
    ⟨rows, rowsOfBytes_eq_ok_iff.mpr (isMeasurementFile_of_writesRows hfinite h), rfl⟩

/-- One row, with a byte-order mark, a quoted name, a column in the way, `\r\n`, an empty line, and
no line end after it. -/
def sampleLayout : List UInt8 :=
  Csv.mark ++ "\"tRCD in ns\",note,retention,FehlerAbs,FehlerProzent\r\n\n".toUTF8.toList ++
    "1.5e1,\"a \"\"b\"\",\n\", 2 ,0xff,+.5".toUTF8.toList

theorem writesRows_sampleLayout : WritesRows [⟨15, 0.5, 2, some 255⟩] sampleLayout := by
  have hpads (cs : List Char) : Csv.Pads cs (Text.encode cs) := ⟨[], [], by simp, by simp, by simp⟩
  have hliteral {cs : List Char} {x : Binary64} (h : Binary64.ofChars? cs = some x)
      (hx : x.isFinite) : Binary64.IsLiteral cs x := Binary64.isLiteral_of_ofChars? h hx
  have hblank : ∀ c ∈ [' '], Text.isBlank c := List.forall_mem_singleton.mpr (by decide)
  have hcount : IsCount "0xff".toList (some 255) :=
    Cells.parseCount_eq_ok_iff.mp (by decide +kernel)
  refine ⟨[some .trcd, none, some .retention, some .errorCount, some .errorPercent],
    ["tRCD in ns", "note", "retention", "FehlerAbs", "FehlerProzent"].map fun name =>
      Text.encode name.toList,
    [["1.5e1", "a \"b\",\n", " 2 ", "0xff", "+.5"].map fun text => Text.encode text.toList],
    ⟨by decide, by decide, ?_⟩, .inl (by decide), ?_, ?_⟩
  · refine .cons ⟨_, ?_, ?_, hpads _⟩ <| .cons ⟨_, ?_, ?_, hpads _⟩ <|
      .cons ⟨_, ?_, ?_, hpads _⟩ <| .cons ⟨_, ?_, ?_, hpads _⟩ <|
      .cons ⟨_, ?_, ?_, hpads _⟩ .nil
    all_goals decide +kernel
  · refine .cons (.cons ⟨_, .trcd (hliteral ?_ ?_), hpads _⟩ <| .cons ⟨_, .unknown, hpads _⟩ <|
      .cons ⟨['2'], .retention (hliteral ?_ ?_), [' '], [' '], hblank, hblank, ?_⟩ <|
      .cons ⟨_, .errorCount hcount, hpads _⟩ <|
      .cons ⟨_, .errorPercent (hliteral ?_ ?_), hpads _⟩ .nil) .nil
    all_goals decide +kernel
  · have hempty : Csv.IsGap [] := by decide
    have hgap : Csv.IsGap [0x0D, 0x0A, 0x0A] := by decide
    refine ⟨[], _, hempty, .cons (.cons .quoted <| .cons (.bare ?_ ?_) <| .cons (.bare ?_ ?_) <|
        .cons (.bare ?_ ?_) <| .last (.bare ?_ ?_)) ?_ hgap ?_
      (.last (.cons (.bare ?_ ?_) <| .cons .quoted <| .cons (.bare ?_ ?_) <|
        .cons (.bare ?_ ?_) <| .last (.bare ?_ ?_)) ?_ hempty), ?_⟩
    all_goals decide +kernel

end DramTiming
