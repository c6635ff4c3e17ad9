import DramTiming.Decimal.Notation
import DramTiming.Decimal.Integer
import DramTiming.Files.Path
import DramTiming.Text.Utf8

/-!
# Dataset labels

A measurement file is named after its run: the manufacturer, the temperature in degrees, an `x`,
and the data pattern in one or two hexadecimal digits, as in `MicronLong24x0`.  `Label.ofStem`
reads such a name; any other name is taken as that of the manufacturer.
-/

namespace DramTiming

/-- What a run is known by. -/
structure Label where
  manufacturer : String
  dataPattern : Option Nat
  temperature : Option Nat
  custom : Option String
deriving DecidableEq, Repr

/-- A measurement file, and the text that is to stand for it in charts and reports, if one is
given. -/
structure Dataset where
  path : Path
  label : Option String
deriving DecidableEq, Repr

namespace Label

/-! ### Reading a file name -/

/-- Splits a text at its last `x`. -/
def splitAtLastX? (cs : List Char) : Option (List Char × List Char) :=
  match cs.reverse.span (· ≠ 'x') with
  | (_, []) => none
  | (after, _ :: before) => some (before.reverse, after.reverse)

/-- Splits a text before the digits at its end. -/
def splitBeforeDigits (cs : List Char) : List Char × List Char :=
  let (digits, name) := cs.reverse.span Char.isDigit
  (name.reverse, digits.reverse)

/-- Reads manufacturer, temperature and data pattern. -/
def readStem? (stem : List Char) : Option (List Char × Nat × Nat) := do
  let (head, pattern) ← splitAtLastX? stem
  guard (!pattern.isEmpty && Text.byteLength pattern ≤ 2)
  let dataPattern ← (Decimal.readNat 16 255 pattern).toOption
  let (manufacturer, digits) := splitBeforeDigits head
  guard (!manufacturer.isEmpty && !digits.isEmpty)
  let temperature ← (Decimal.readNat 10 Decimal.max32 digits).toOption
  return (manufacturer, temperature, dataPattern)

/-- The label of a file with this name. -/
def ofStem (stem : String) : Label :=
  match readStem? stem.toList with
  | some (manufacturer, temperature, dataPattern) =>
    ⟨String.ofList manufacturer, some dataPattern, some temperature, none⟩
  | none => ⟨stem, none, none, none⟩

/-! ### Writing -/

/-- A data pattern, in two hexadecimal digits. -/
def patternText (pattern : Nat) : String :=
  let digits := Nat.toDigits 16 pattern
  "0x" ++ String.ofList (List.replicate (2 - digits.length) '0' ++ digits)

/-- What a run is called in legends and reports. -/
def display (l : Label) : String :=
  match l.custom, l.dataPattern, l.temperature with
  | some custom, _, _ => custom
  | none, some pattern, some temperature => s!"{temperature}°C, " ++ patternText pattern
  | none, _, _ => l.manufacturer

/-- What a run is called in the title of its chart. -/
def title (l : Label) : String :=
  match l.custom, l.dataPattern, l.temperature with
  | some custom, _, _ => l.manufacturer ++ " (" ++ custom ++ ")"
  | none, some pattern, some temperature =>
    l.manufacturer ++ " with data pattern " ++ patternText pattern ++ s!" at {temperature}°C"
  | none, _, _ => l.manufacturer

end Label

namespace Dataset

/-- The measurement file with this path, without a text of its own. -/
def ofPath (path : Path) : Dataset := ⟨path, none⟩

/-- The label of a measurement file: read from its name, with the given text if there is one. -/
def labelOf (d : Dataset) : Label :=
  { Label.ofStem (d.path.fileStem?.getD "") with custom := d.label }

end Dataset

end DramTiming
