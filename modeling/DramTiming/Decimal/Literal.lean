import DramTiming.Binary64.Basic

/-!
# Reading double-precision numbers

A floating-point literal is an optional sign, then one of the words `inf`, `infinity` and `nan` in
any case, or digits with at most one point among them and at most one exponent after them.  It
stands for the number nearest to its exact value.
-/

namespace DramTiming

namespace Decimal

/-- The digits at the front of a text. -/
def leadingDigits (cs : List Char) : List Char := cs.takeWhile Char.isDigit

/-- What follows the digits at the front of a text. -/
def afterDigits (cs : List Char) : List Char := cs.dropWhile Char.isDigit

/-- The value of a digit. -/
def digitValue (c : Char) : Nat := c.toNat - '0'.toNat

/-- The number that a row of digits stands for. -/
def digitsValue (cs : List Char) : Nat := cs.foldl (fun n c => 10 * n + digitValue c) 0

/-- Splits off a sign; the flag tells a minus. -/
def signAndRest : List Char → Bool × List Char
  | '-' :: cs => (true, cs)
  | '+' :: cs => (false, cs)
  | cs => (false, cs)

/-- Reads digits with at most one point before, among or after them: the number without its point,
how many digits follow the point, and the rest of the text.  There has to be a digit. -/
def mantissa? (cs : List Char) : Option (Nat × Nat × List Char) :=
  let whole := leadingDigits cs
  match afterDigits cs with
  | '.' :: rest =>
    let decimals := leadingDigits rest
    if whole.isEmpty && decimals.isEmpty then none
    else some (digitsValue (whole ++ decimals), decimals.length, afterDigits rest)
  | rest => if whole.isEmpty then none else some (digitsValue whole, 0, rest)

/-- Reads the whole of a text as an exponent: nothing at all, or `e` and a signed whole number. -/
def exponent? : List Char → Option Int
  | [] => some 0
  | c :: cs =>
    if c = 'e' || c = 'E' then
      let (negative, digits) := signAndRest cs
      if digits.isEmpty || !digits.all Char.isDigit then none
      else some (if negative then -digitsValue digits else digitsValue digits)
    else none

/-- The words for values that have no digits. -/
def word? (negative : Bool) (cs : List Char) : Option Binary64 :=
  match String.ofList (cs.map Char.toLower) with
  | "inf" | "infinity" => some (Binary64.infinity negative)
  | "nan" => some { Binary64.nan with negative := negative }
  | _ => none

end Decimal

namespace Binary64

open Decimal

/-- Reads the whole of a text as a floating-point literal. -/
def ofChars? (cs : List Char) : Option Binary64 :=
  let (negative, body) := signAndRest cs
  match mantissa? body with
  | some (digits, decimals, rest) =>
    (exponent? rest).map fun exponent => ofDecimal negative digits (exponent - decimals)
  | none => word? negative body

/-- Why a text is no number. -/
inductive LiteralError where
  | empty
  | invalid
deriving DecidableEq, Repr

/-- The wording of a `LiteralError`. -/
def LiteralError.message : LiteralError → String
  | .empty => "cannot parse float from empty string"
  | .invalid => "invalid float literal"

/-- Reads a floating-point literal, or tells why the text is none. -/
def parse (text : String) : Except LiteralError Binary64 :=
  match ofChars? text.toList with
  | some x => .ok x
  | none => .error (if text.isEmpty then .empty else .invalid)

end Binary64

end DramTiming
