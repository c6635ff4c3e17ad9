import DramTiming.Decimal.Basic

/-!
# Writing double-precision numbers

Four notations: `positional` (the fewest digits that read back, never an exponent), `general` (the
same digits, with a point always and an exponent for very large and very small numbers), `fixed` (a
given number of decimals), and `positional` after rounding to a number of significant digits.
-/

namespace DramTiming

namespace Decimal

/-- The digits of a natural number. -/
def digitText (n : Nat) : String := String.ofList (Nat.toDigits 10 n)

/-- `count` zeros. -/
def zeros (count : Nat) : String := String.ofList (List.replicate count '0')

/-- Writes a numeral without an exponent. -/
def positional (d : Decimal) : String :=
  let digits := Nat.toDigits 10 d.digits
  match d.exponent with
  | .ofNat e => String.ofList digits ++ zeros e
  | .negSucc e =>
    let decimals := e + 1
    if decimals < digits.length then
      String.ofList (digits.take (digits.length - decimals)) ++ "."
        ++ String.ofList (digits.drop (digits.length - decimals))
    else "0." ++ zeros (decimals - digits.length) ++ String.ofList digits

/-- Writes a numeral with its point after the first digit, and an exponent. -/
def scientific (d : Decimal) : String :=
  let digits := Nat.toDigits 10 d.digits
  let rest := digits.drop 1
  String.ofList (digits.take 1) ++ (if rest.isEmpty then "" else "." ++ String.ofList rest)
    ++ "e" ++ toString (d.exponent + rest.length)

end Decimal

namespace Binary64

open Decimal

/-- Writes a number whose finite size other than zero is written by `size`. -/
def toTextWith (x : Binary64) (zeroText : String) (size : Nat → String) : String :=
  if x.isNaN then "NaN"
  else (if x.negative then "-" else "")
    ++ if x.isInfinite then "inf" else if x.isZero then zeroText else size x.magnitude

/-- Writes a number with the fewest digits that read back, without an exponent: `2.5`, `500`, `-0`,
`0.0000001`. -/
def toText (x : Binary64) : String := x.toTextWith "0" fun m => (shortest m).positional

/-- Adds `.0` to a numeral without decimals. -/
def withPoint (d : Decimal) : String :=
  if 0 ≤ d.exponent then d.positional ++ ".0" else d.positional

/-- Writes a number with the fewest digits that read back: with a point if its first digit stands
between the fourth decimal and the sixteenth place, with an exponent if not: `2.5`, `1.0`, `1e16`,
`1e-5`. -/
def toGeneralText (x : Binary64) : String :=
  x.toTextWith "0.0" fun m =>
    let d := shortest m
    if -4 < leadingPlace m && leadingPlace m ≤ 16 then withPoint d else d.scientific

/-- Writes a number with `places` decimals, rounded to nearest with ties to the even digit. -/
def toFixedText (x : Binary64) (places : Nat) : String :=
  let size (m : Nat) :=
    let digits := Nat.toDigits 10 (nearest (unitsOf m * tenTo places) unitsPerOne)
    let padded := List.replicate (places + 1 - digits.length) '0' ++ digits
    let whole := String.ofList (padded.take (padded.length - places))
    if places = 0 then whole
    else whole ++ "." ++ String.ofList (padded.drop (padded.length - places))
  x.toTextWith (size 0) size

/-- The number nearest to `x` rounded to `places` significant digits. -/
def roundSignificant (x : Binary64) (places : Nat) : Binary64 :=
  if x.isFinite && !x.isZero then
    let d := ofSignificant x.magnitude places
    ofDecimal x.negative d.digits d.exponent
  else x

end Binary64

end DramTiming
