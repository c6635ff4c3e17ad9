/-!
# Reading whole numbers

A whole number is an optional `+` and at least one digit of its base.  It is read from the left up
to a bound, so a text with two faults is refused for the first of them.
-/

namespace DramTiming.Decimal

/-- Why a text is no whole number within a bound. -/
inductive IntegerError where
  | empty
  | invalidDigit
  | tooLarge
deriving DecidableEq, Repr

/-- The wording of an `IntegerError`. -/
def IntegerError.message : IntegerError → String
  | .empty => "cannot parse integer from empty string"
  | .invalidDigit => "invalid digit found in string"
  | .tooLarge => "number too large to fit in target type"

/-- The value of a digit in a base up to sixteen; letters count in either case. -/
def digitInBase? (base : Nat) (c : Char) : Option Nat :=
  let value :=
    if '0' ≤ c ∧ c ≤ '9' then c.toNat - '0'.toNat
    else if 'a' ≤ c ∧ c ≤ 'f' then c.toNat - 'a'.toNat + 10
    else if 'A' ≤ c ∧ c ≤ 'F' then c.toNat - 'A'.toNat + 10
    else base
  if value < base then some value else none

/-- Reads digits onto the number `sofar`. -/
def readDigits (base bound sofar : Nat) : List Char → Except IntegerError Nat
  | [] => .ok sofar
  | c :: cs =>
    match digitInBase? base c with
    | none => .error .invalidDigit
    | some digit =>
      let next := sofar * base + digit
      if next ≤ bound then readDigits base bound next cs else .error .tooLarge

/-- Reads the whole of a text as a number up to `bound`. -/
def readNat (base bound : Nat) : List Char → Except IntegerError Nat
  | [] => .error .empty
  | '+' :: cs => if cs.isEmpty then .error .invalidDigit else readDigits base bound 0 cs
  | cs => readDigits base bound 0 cs

/-- The largest value of a 32-bit word. -/
def max32 : Nat := 4294967295

/-- The largest value of a 64-bit word. -/
def max64 : Nat := 18446744073709551615

end DramTiming.Decimal
