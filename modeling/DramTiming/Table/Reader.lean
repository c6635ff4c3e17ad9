import DramTiming.Csv.Record
import DramTiming.Files.Error
import DramTiming.Table.Columns

/-!
# Reading measurement files

The first record of a file is its header.  Every further record has as many fields as the header,
all of them UTF-8, and makes one row.  The first record that does not is reported with the line at
which it was looked for, and the file makes no table.
-/

namespace DramTiming

/-! ### Faults -/

/-- Why a record makes no row. -/
inductive RecordFault where
  | fieldCount (found expected : Nat)
  | notUtf8 (field validBytes : Nat)
  | cell (fault : CellFault)
deriving DecidableEq, Repr

/-- Why the bytes of a file make no table. -/
inductive TableFault where
  | unreadable (cause : FileError)
  | headerNotUtf8 (field validBytes : Nat)
  | noHeader
  | noColumn (column : Column)
  | record (position : Csv.Position) (fault : RecordFault)
deriving DecidableEq, Repr

/-- The wording of a field that is not UTF-8. -/
def utf8FaultMessage (position : Csv.Position) (field validBytes : Nat) : String :=
  s!"CSV parse error: record {position.record} (line {position.line}, field: {field}, " ++
    s!"byte: {position.byte}): invalid utf-8: invalid UTF-8 in field {field} " ++
    s!"near byte index {validBytes}"

/-- The place of a record in a wording. -/
def recordPlace (position : Csv.Position) : String :=
  s!"record {position.record} (line: {position.line}, byte: {position.byte})"

/-- The wording of a `CellFault` in the record at a position. -/
def CellFault.message (position : Csv.Position) : CellFault → String
  | .notFloat field cause =>
    s!"CSV deserialize error: {recordPlace position}: field {field}: {cause.message}"
  | .notCount field cause =>
    s!"CSV deserialize error: {recordPlace position}: field {field}: {cause.message}"
  | .duplicateColumn column =>
    s!"CSV deserialize error: {recordPlace position}: duplicate field `{column.name}`"
  | .missingColumn column =>
    s!"CSV deserialize error: {recordPlace position}: missing field `{column.name}`"
  | .notFinite column => s!"{column.name} is not a finite number"

/-- The wording of a `RecordFault` in the record at a position. -/
def RecordFault.message (position : Csv.Position) : RecordFault → String
  | .fieldCount found expected =>
    s!"CSV error: {recordPlace position}: found record with {found} fields, " ++
      s!"but the previous record has {expected} fields"
  | .notUtf8 field validBytes => utf8FaultMessage position field validBytes
  | .cell fault => fault.message position

/-- The wording of a `TableFault`. -/
def TableFault.message : TableFault → String
  | .unreadable cause => cause.message
  | .headerNotUtf8 field validBytes => utf8FaultMessage Csv.Position.start field validBytes
  | .noHeader => "missing header row"
  | .noColumn column => s!"missing column `{column.name}`"
  | .record position fault => fault.message position

/-- The line that a `TableFault` is reported at. -/
def TableFault.line : TableFault → Nat
  | .record position _ => position.line
  | _ => 1

/-! ### Records -/

/-- Reads the fields of a record as texts, numbering them from `field`; the fault names the first
field that is not UTF-8, and how many of its bytes are. -/
def decodeFields (field : Nat) : List (List UInt8) → Except (Nat × Nat) (List String)
  | [] => .ok []
  | bytes :: rest =>
    match Text.decode bytes with
    | .error validBytes => .error (field, validBytes)
    | .ok cs => (decodeFields (field + 1) rest).map (String.ofList (Text.trim cs) :: ·)

/-- The names in a header. -/
def readHeader (record : Csv.Record) : Except TableFault (List String) :=
  match decodeFields 0 record.fields with
  | .ok names => .ok names
  | .error (field, validBytes) => .error (.headerNotUtf8 field validBytes)

/-- The columns with these names, if there is any name and no required column is missing. -/
def readColumns (names : List String) : Except TableFault (List (Option Column)) :=
  let columns := names.map Column.ofName?
  if names.all String.isEmpty then .error .noHeader
  else match Column.required.find? (fun column => !columns.contains (some column)) with
    | some column => .error (.noColumn column)
    | none => .ok columns

/-- The row that a record makes. -/
def readRow (columns : List (Option Column)) (record : Csv.Record) : Except RecordFault Row :=
  if record.fields.length ≠ columns.length then
    .error (.fieldCount record.fields.length columns.length)
  else match decodeFields 0 (record.fields.map Csv.trimField) with
    | .error (field, validBytes) => .error (.notUtf8 field validBytes)
    | .ok texts =>
      match Cells.empty.readAll 0 (columns.zip texts) with
      | .error fault => .error (.cell fault)
      | .ok cells =>
        match cells.toRow with
        | .error fault => .error (.cell fault)
        | .ok row => .ok row

/-- The rows that records make, up to the first that makes none. -/
def readRows (columns : List (Option Column)) : List Csv.Record → Except TableFault (List Row)
  | [] => .ok []
  | record :: records =>
    match readRow columns record with
    | .error fault => .error (.record record.position fault)
    | .ok row => (readRows columns records).map (row :: ·)

/-- The rows of a measurement file. -/
def rowsOfBytes (bytes : List UInt8) : Except TableFault (List Row) :=
  match Csv.records bytes with
  | [] => .error .noHeader
  | header :: records => do
    let columns ← readColumns (← readHeader header)
    readRows columns records

/-! ### Files -/

/-- Why a measurement file makes no table. -/
inductive TableError where
  | notFound (path : Path)
  | malformed (path : Path) (fault : TableFault)
  | unopenable (path : Path) (cause : FileError)
deriving DecidableEq, Repr

/-- The wording of a `TableError`. -/
def TableError.message : TableError → String
  | .notFound path => s!"measurement file not found: {path}"
  | .malformed path fault => s!"{path}: malformed row at line {fault.line}: {fault.message}"
  | .unopenable path cause => s!"failed to read {path}: {cause.message}"

/-- The table in a measurement file, from what reading the file gave.  A directory can be opened,
but not read. -/
def Dataset.toTable (d : Dataset) : Except FileError (List UInt8) → Except TableError Table
  | .error .notFound => .error (.notFound d.path)
  | .error .isDirectory => .error (.malformed d.path (.unreadable .isDirectory))
  | .error cause => .error (.unopenable d.path cause)
  | .ok bytes =>
    match rowsOfBytes bytes with
    | .error fault => .error (.malformed d.path fault)
    | .ok rows => .ok ⟨d.labelOf, d.path, rows⟩

end DramTiming
