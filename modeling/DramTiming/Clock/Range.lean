import DramTiming.Clock.Basic
import DramTiming.Decimal.Integer
import DramTiming.Text.Blank

/-!
# Reading multiplier ranges

A range is written `A..=B` or `A-B`, with white space allowed around both numbers.  The first `..=`
is the separator; only a text without one is split at its first dash.
-/

namespace DramTiming

/-- Why a text is no multiplier range. -/
inductive RangeError where
  | noSeparator (text : String)
  | badStart (cause : Decimal.IntegerError)
  | badEnd (cause : Decimal.IntegerError)
  | empty (lo hi : Nat)
deriving DecidableEq, Repr

/-- The wording of a `RangeError`. -/
def RangeError.message : RangeError → String
  | .noSeparator text => s!"expected A..=B, got `{text}`"
  | .badStart cause => s!"bad range start: {cause.message}"
  | .badEnd cause => s!"bad range end: {cause.message}"
  | .empty lo hi => s!"empty range {lo}..={hi}"

namespace MultRange

/-- Splits a text at its first `..=`. -/
def splitAtDots? : List Char → Option (List Char × List Char)
  | '.' :: '.' :: '=' :: after => some ([], after)
  | [] => none
  | c :: cs => (splitAtDots? cs).map fun (before, after) => (c :: before, after)

/-- Splits a text at its first dash. -/
def splitAtDash? : List Char → Option (List Char × List Char)
  | [] => none
  | c :: cs =>
    if c = '-' then some ([], cs)
    else (splitAtDash? cs).map fun (before, after) => (c :: before, after)

/-- Reads one end of a range. -/
def readEnd (cs : List Char) : Except Decimal.IntegerError Nat :=
  Decimal.readNat 10 Decimal.max32 (Text.trim cs)

/-- Reads a multiplier range. -/
def parse (text : String) : Except RangeError MultRange := do
  let (before, after) ←
    match (splitAtDots? text.toList).or (splitAtDash? text.toList) with
    | some ends => pure ends
    | none => throw (.noSeparator text)
  let lo ← (readEnd before).mapError .badStart
  let hi ← (readEnd after).mapError .badEnd
  if hi < lo then throw (.empty lo hi) else pure ⟨lo, hi⟩

end MultRange

end DramTiming
