import DramTiming.Decimal.Literal
import DramTiming.Toml.Text
import DramTiming.Toml.Value

/-!
# TOML numbers, dates and times
-/

namespace DramTiming.Toml

/-! ### Digits -/

/-- Reads digits of which some may have an underscore before them; the underscores are left out. -/
def moreDigits (isDigit : Char → Bool) : List Char → List Char × List Char
  | '_' :: c :: cs =>
    if isDigit c then
      let (digits, rest) := moreDigits isDigit cs
      (c :: digits, rest)
    else ([], '_' :: c :: cs)
  | c :: cs =>
    if isDigit c then
      let (digits, rest) := moreDigits isDigit cs
      (c :: digits, rest)
    else ([], c :: cs)
  | [] => ([], [])

/-- Reads a digit and more digits. -/
def digits? (isDigit : Char → Bool) : List Char → Option (List Char × List Char)
  | c :: cs =>
    if isDigit c then
      let (digits, rest) := moreDigits isDigit cs
      some (c :: digits, rest)
    else none
  | [] => none

/-- Reads a sign, if there is one. -/
def sign : List Char → List Char × List Char
  | '+' :: cs => (['+'], cs)
  | '-' :: cs => (['-'], cs)
  | cs => ([], cs)

/-- Reads the digits of a decimal number, which begin with a zero only if that is all. -/
def decimalDigits? : List Char → Option (List Char × List Char)
  | '0' :: cs => some (['0'], cs)
  | cs => digits? Char.isDigit cs

/-! ### Numbers -/

/-- Passes on what is a 64-bit integer. -/
def integer64? (n : Int) : Option Int :=
  if -9223372036854775808 ≤ n ∧ n ≤ 9223372036854775807 then some n else none

/-- Reads an integer in a base other than ten, after its mark. -/
def basedInteger? (base : Nat) (cs : List Char) : Option (Value × List Char) := do
  let isDigit (c : Char) := (hexDigit? c).any (· < base)
  let (digits, rest) ← digits? isDigit cs
  let n := digits.foldl (fun n c => base * n + (hexDigit? c).getD 0) 0
  return (.integer (← integer64? n), rest)

/-- Reads a point and decimals. -/
def fraction? : List Char → Option (List Char × List Char)
  | '.' :: cs => (digits? Char.isDigit cs).map fun (digits, rest) => ('.' :: digits, rest)
  | _ => none

/-- Reads an exponent. -/
def exponent? : List Char → Option (List Char × List Char)
  | c :: cs =>
    if c = 'e' ∨ c = 'E' then do
      let (signText, rest) := sign cs
      let (digits, rest) ← digits? Char.isDigit rest
      return ('e' :: signText ++ digits, rest)
    else none
  | [] => none

/-- Reads what tells a float from an integer: decimals, an exponent, or both. -/
def floatTail? (cs : List Char) : Option (List Char × List Char) :=
  match fraction? cs with
  | some (decimals, rest) =>
    match exponent? rest with
    | some (exponent, rest) => some (decimals ++ exponent, rest)
    | none => some (decimals, rest)
  | none => exponent? cs

/-- A float from its text without underscores, unless it is too large for one. -/
def floatOfText? (text : List Char) : Option Value := do
  let x ← Binary64.ofChars? text
  if x = Binary64.infinity false then none else some (.float x)

/-- Reads one of the words `inf` and `nan`, after a sign. -/
def specialFloat? (signText : List Char) : List Char → Option (Value × List Char)
  | 'i' :: 'n' :: 'f' :: cs => some (.float (Binary64.infinity (signText == ['-'])), cs)
  | 'n' :: 'a' :: 'n' :: cs => some (.float { Binary64.nan with negative := signText == ['-'] }, cs)
  | _ => none

/-- Reads a number. -/
def number? (cs : List Char) : Option (Value × List Char) :=
  match cs with
  | '0' :: 'x' :: rest => basedInteger? 16 rest
  | '0' :: 'o' :: rest => basedInteger? 8 rest
  | '0' :: 'b' :: rest => basedInteger? 2 rest
  | cs =>
    let (signText, unsigned) := sign cs
    match decimalDigits? unsigned with
    | none => specialFloat? signText unsigned
    | some (digits, rest) =>
      match floatTail? rest with
      | some (tail, rest) => (floatOfText? (signText ++ digits ++ tail)).map (·, rest)
      | none =>
        let size : Int := Decimal.digitsValue digits
        (integer64? (if signText == ['-'] then -size else size)).map (.integer ·, rest)

/-! ### Dates and times -/

/-- Reads `count` digits as a number. -/
def fixedDigits? (count : Nat) (cs : List Char) : Option (Nat × List Char) :=
  let digits := cs.take count
  if digits.length = count ∧ digits.all Char.isDigit then
    some (Decimal.digitsValue digits, cs.drop count)
  else none

/-- Reads a given character. -/
def mark? (mark : Char) : List Char → Option (List Char)
  | c :: cs => if c = mark then some cs else none
  | [] => none

/-- The number of days in a month. -/
def daysInMonth (year month : Nat) : Nat :=
  match month with
  | 2 => if year % 4 = 0 ∧ (year % 100 ≠ 0 ∨ year % 400 = 0) then 29 else 28
  | 4 | 6 | 9 | 11 => 30
  | _ => 31

/-- Reads a date. -/
def date? (cs : List Char) : Option (List Char) := do
  let (year, cs) ← fixedDigits? 4 cs
  let (month, cs) ← fixedDigits? 2 (← mark? '-' cs)
  let (day, cs) ← fixedDigits? 2 (← mark? '-' cs)
  guard (1 ≤ month ∧ month ≤ 12 ∧ 1 ≤ day ∧ day ≤ daysInMonth year month)
  return cs

/-- Reads hours and minutes. -/
def hourMinute? (cs : List Char) : Option (List Char) := do
  let (hour, cs) ← fixedDigits? 2 cs
  let (minute, cs) ← fixedDigits? 2 (← mark? ':' cs)
  guard (hour ≤ 23 ∧ minute ≤ 59)
  return cs

/-- Reads a time of day. -/
def time? (cs : List Char) : Option (List Char) := do
  let (second, cs) ← fixedDigits? 2 (← mark? ':' (← hourMinute? cs))
  guard (second ≤ 60)
  match cs with
  | '.' :: c :: rest => if c.isDigit then return rest.dropWhile Char.isDigit else return cs
  | _ => return cs

/-- Drops the offset of a time, if there is one. -/
def skipOffset (cs : List Char) : List Char :=
  match cs with
  | c :: rest =>
    if c = 'Z' ∨ c = 'z' then rest
    else if c = '+' ∨ c = '-' then (hourMinute? rest).getD cs
    else cs
  | [] => cs

/-- Reads a date, a time, or both. -/
def datetime? (cs : List Char) : Option (Value × List Char) :=
  match date? cs with
  | some (c :: rest) =>
    if c = 'T' ∨ c = 't' ∨ c = ' ' then
      match time? rest with
      | some rest => some (.datetime, skipOffset rest)
      | none => some (.datetime, c :: rest)
    else some (.datetime, c :: rest)
  | some [] => some (.datetime, [])
  | none => (time? cs).map (.datetime, ·)

end DramTiming.Toml
