import DramTiming.Text.Blank

/-!
# Comma-separated records

A file is a row of records, a record a row of fields.  A field that begins with a quote extends to
the next quote that is not doubled, and what follows up to the next comma or line end is taken as
it stands.  A record ends with `\n`, with `\r` or with the file; line ends before a record are
skipped, which also makes `\r\n` one line end.  A byte-order mark at the start of a file is not
part of it.

Each record carries the position at which the search for it began: just after the byte that ended
the record before it.
-/

namespace DramTiming.Csv

/-- The byte that separates fields. -/
def comma : UInt8 := 0x2C

/-- The byte that opens and closes a quoted field. -/
def quote : UInt8 := 0x22

/-- The byte that counts lines. -/
def lineFeed : UInt8 := 0x0A

/-- Whether a byte ends a record. -/
def isTerminator (b : UInt8) : Bool := b == lineFeed || b == 0x0D

/-- Where a record begins in its file. -/
structure Position where
  /-- The number of records before it. -/
  record : Nat
  /-- One more than the number of line feeds before it. -/
  line : Nat
  /-- The number of bytes before it. -/
  byte : Nat
deriving DecidableEq, Repr

/-- The position of the first record. -/
def Position.start : Position := ⟨0, 1, 0⟩

/-- The position one byte on. -/
def Position.after (p : Position) (b : UInt8) : Position :=
  { p with line := if b == lineFeed then p.line + 1 else p.line, byte := p.byte + 1 }

/-- The position of the record that follows. -/
def Position.nextRecord (p : Position) : Position := { p with record := p.record + 1 }

/-- A record: its fields as they stand in the file, without quotes. -/
structure Record where
  position : Position
  fields : List (List UInt8)
deriving DecidableEq, Repr

/-! ### One record -/

/-- How the next byte of a field is to be taken. -/
inductive Place where
  /-- The field has just begun. -/
  | fieldStart
  /-- The field has no quote at its start, or its quoted part is over. -/
  | plain
  /-- Between the quotes of a quoted field. -/
  | quoted
  /-- After a quote inside a quoted field: another one would make a quote of the text. -/
  | afterQuote
deriving DecidableEq, Repr

/-- What reading a record leaves: its fields, the position after its terminator, and the bytes from
there on. -/
structure Reading where
  fields : List (List UInt8)
  next : Position
  rest : List UInt8
deriving DecidableEq, Repr

/-- Reads the rest of a record from a position on.  `sofar` holds the bytes of the current field,
the last one first. -/
def readRecord (place : Place) (sofar : List UInt8) (position : Position) : List UInt8 → Reading
  | [] => ⟨[sofar.reverse], position, []⟩
  | b :: bs =>
    let next := position.after b
    if place == .quoted then
      if b == quote then readRecord .afterQuote sofar next bs
      else readRecord .quoted (b :: sofar) next bs
    else if b == comma then
      let reading := readRecord .fieldStart [] next bs
      { reading with fields := sofar.reverse :: reading.fields }
    else if isTerminator b then ⟨[sofar.reverse], next, bs⟩
    else if b == quote && place == .fieldStart then readRecord .quoted sofar next bs
    else if b == quote && place == .afterQuote then readRecord .quoted (b :: sofar) next bs
    else readRecord .plain (b :: sofar) next bs

theorem length_rest_readRecord_le (place : Place) (sofar : List UInt8) (position : Position)
    (bytes : List UInt8) : (readRecord place sofar position bytes).rest.length ≤ bytes.length := by
  fun_induction readRecord place sofar position bytes <;> grind

theorem length_rest_readRecord_lt (place : Place) (sofar : List UInt8) (position : Position)
    (b : UInt8) (bs : List UInt8) :
    (readRecord place sofar position (b :: bs)).rest.length < (b :: bs).length := by
  have h (place : Place) (sofar : List UInt8) (position : Position) :=
    length_rest_readRecord_le place sofar position bs
  grind [readRecord]

/-- Line ends and a record take at least a byte. -/
theorem length_rest_lt {bytes : List UInt8} {b : UInt8} {bs : List UInt8} (position : Position)
    (h : bytes.dropWhile isTerminator = b :: bs) :
    (readRecord .fieldStart [] position (b :: bs)).rest.length < bytes.length := by
  have hlt := length_rest_readRecord_lt .fieldStart [] position b bs
  have hle := (List.dropWhile_sublist isTerminator (l := bytes)).length_le
  rw [h] at hle
  omega

/-! ### All records -/

/-- The records in `bytes`, of which the first stands at `position`. -/
def readRecords (position : Position) (bytes : List UInt8) : List Record :=
  match _ : bytes.dropWhile isTerminator with
  | [] => []
  | b :: bs =>
    let begin := (bytes.takeWhile isTerminator).foldl Position.after position
    let reading := readRecord .fieldStart [] begin (b :: bs)
    ⟨position, reading.fields⟩ :: readRecords reading.next.nextRecord reading.rest
termination_by bytes.length
decreasing_by exact length_rest_lt _ (by assumption)

/-- The records of a file. -/
def records : List UInt8 → List Record
  | 0xEF :: 0xBB :: 0xBF :: bytes => readRecords { Position.start with byte := 3 } bytes
  | bytes => readRecords Position.start bytes

/-! ### Fields -/

/-- Whether a byte is white space in ASCII. -/
def isAsciiBlank (b : UInt8) : Bool :=
  b == 0x20 || b == 0x09 || b == 0x0A || b == 0x0C || b == 0x0D

/-- A field without the ASCII white space around it. -/
def trimField (field : List UInt8) : List UInt8 := Text.trimBoth isAsciiBlank field

end DramTiming.Csv
