import DramTiming.Table.Basic
import DramTiming.Decimal.Literal

/-!
# The columns of a measurement file

Four columns are recognised by their names; any other is ignored.  The cells of a record are read
in the order of the columns, and the first fault decides.
-/

namespace DramTiming

/-- A recognised column. -/
inductive Column where
  | trcd
  | retention
  | errorPercent
  | errorCount
deriving DecidableEq, Repr

namespace Column

/-- The name of a column in messages. -/
def name : Column → String
  | trcd => "tRCD"
  | retention => "retention"
  | errorPercent => "FehlerProzent"
  | errorCount => "FehlerAbs"

/-- The column with this name in a header; the first column has two names. -/
def ofName? : String → Option Column
  | "tRCD" => some trcd
  | "tRCD in ns" => some trcd
  | "retention" => some retention
  | "FehlerProzent" => some errorPercent
  | "FehlerAbs" => some errorCount
  | _ => none

/-- The columns that every file has, in the order in which they are missed. -/
def required : List Column := [trcd, retention, errorPercent]

end Column

/-! ### Cells -/

/-- Why the cells of a record make no row. -/
inductive CellFault where
  | notFloat (field : Nat) (cause : Binary64.LiteralError)
  | notCount (field : Nat) (cause : Decimal.IntegerError)
  | duplicateColumn (column : Column)
  | missingColumn (column : Column)
  | notFinite (column : Column)
deriving DecidableEq, Repr

/-- The cells of a record that have been read; a count cell that was empty is read as no count. -/
structure Cells where
  trcd : Option Binary64
  retention : Option Binary64
  errorPercent : Option Binary64
  errorCount : Option (Option Nat)
deriving DecidableEq

namespace Cells

/-- No cell has been read. -/
def empty : Cells := ⟨none, none, none, none⟩

/-- Reads a number of the given column into a cell that has to be free. -/
def readFloat (cell : Option Binary64) (column : Column) (field : Nat) (text : String) :
    Except CellFault Binary64 :=
  match cell, Binary64.parse text with
  | some _, _ => .error (.duplicateColumn column)
  | none, .ok x => .ok x
  | none, .error cause => .error (.notFloat field cause)

/-- Reads an error count: nothing at all, a number in hexadecimal after `0x`, or one in decimal. -/
def parseCount (text : String) : Except Decimal.IntegerError (Option Nat) :=
  match text.toList with
  | [] => .ok none
  | '0' :: 'x' :: digits => (Decimal.readNat 16 Decimal.max64 digits).map some
  | digits => (Decimal.readNat 10 Decimal.max64 digits).map some

/-- Reads an error count into a cell that has to be free. -/
def readCount (cell : Option (Option Nat)) (field : Nat) (text : String) :
    Except CellFault (Option Nat) :=
  match cell, parseCount text with
  | some _, _ => .error (.duplicateColumn .errorCount)
  | none, .ok count => .ok count
  | none, .error cause => .error (.notCount field cause)

/-- Reads one more cell. -/
def read (cells : Cells) (column : Column) (field : Nat) (text : String) : Except CellFault Cells :=
  match column with
  | .trcd => do
    let x ← readFloat cells.trcd column field text
    return { cells with trcd := some x }
  | .retention => do
    let x ← readFloat cells.retention column field text
    return { cells with retention := some x }
  | .errorPercent => do
    let x ← readFloat cells.errorPercent column field text
    return { cells with errorPercent := some x }
  | .errorCount => do
    let count ← readCount cells.errorCount field text
    return { cells with errorCount := some count }

/-- Reads the cells of a record from the given field on. -/
def readAll (cells : Cells) (field : Nat) : List (Option Column × String) → Except CellFault Cells
  | [] => .ok cells
  | (none, _) :: rest => cells.readAll (field + 1) rest
  | (some column, text) :: rest => do (← cells.read column field text).readAll (field + 1) rest

/-- The number in a cell that has to be there. -/
def need (cell : Option Binary64) (column : Column) : Except CellFault Binary64 :=
  match cell with
  | some x => .ok x
  | none => .error (.missingColumn column)

/-- Passes on a number of a column if it is finite. -/
def finite (x : Binary64) (column : Column) : Except CellFault Unit :=
  if x.isFinite then .ok () else .error (.notFinite column)

/-- The row that the cells make. -/
def toRow (cells : Cells) : Except CellFault Row := do
  let trcd ← need cells.trcd .trcd
  let retention ← need cells.retention .retention
  let errorPercent ← need cells.errorPercent .errorPercent
  finite trcd .trcd
  finite retention .retention
  finite errorPercent .errorPercent
  return ⟨trcd, errorPercent, retention, cells.errorCount.join⟩

end Cells

end DramTiming
