import DramTiming.Binary64.Arith

/-!
# Decimal numerals and the doubles they stand for

A decimal numeral is a natural number of some power of ten.  This module relates it to the doubles
in both directions: `Decimal.shortest` finds the numeral with the fewest digits that reads back as
a given magnitude, `Decimal.ofSignificant` the nearest one with a given number of digits.
-/

namespace DramTiming

/-- The number `digits * 10 ^ exponent`. -/
structure Decimal where
  digits : Nat
  exponent : Int
deriving DecidableEq, Repr

namespace Decimal

open Binary64

/-! ### Trailing zeros -/

/-- The same number without trailing zeros. -/
def strip (d : Decimal) : Decimal :=
  if h : d.digits ≠ 0 ∧ d.digits % 10 = 0 then strip ⟨d.digits / 10, d.exponent + 1⟩ else d
termination_by d.digits
decreasing_by exact Nat.div_lt_self (Nat.pos_of_ne_zero h.1) (by decide)

/-! ### The decimal grid through a magnitude -/

/-- The number of decimal digits of `n`. -/
def width (n : Nat) : Nat := (Nat.toDigits 10 n).length

/-- The place of the leading digit of a magnitude that is not zero: its value is below
`10 ^ leadingPlace` and at least a tenth of that.  Every such value is at least `10 ^ -324`. -/
def leadingPlace (magnitude : Nat) : Int :=
  (width (unitsOf magnitude * tenTo 340 / unitsPerOne) : Int) - 340

/-- Half a unit is `den / num` steps of `10 ^ exponent`; the pair is `(num, den)`. -/
def stepInHalfUnits : Int → Nat × Nat
  | .ofNat e => (tenTo e * 2 * unitsPerOne, 1)
  | .negSucc e => (2 * unitsPerOne, tenTo (e + 1))

/-! ### The fewest digits that read back -/

/-- Whether `count` steps of `10 ^ exponent` round to `magnitude`.  The ends of the interval of
values that do lie half way to the two neighbours, and belong to it when the magnitude is even. -/
def roundsTo (magnitude count : Nat) (exponent : Int) : Bool :=
  let (num, den) := stepInHalfUnits exponent
  let lower := (unitsOf (magnitude - 1) + unitsOf magnitude) * den
  let upper := (unitsOf magnitude + unitsOf (magnitude + 1)) * den
  if magnitude % 2 = 0 then lower ≤ count * num && count * num ≤ upper
  else lower < count * num && count * num < upper

/-- The multiple of `10 ^ exponent` that rounds to `magnitude`, if there is one.  If both neighbours
on the grid do, the nearer is taken, and of two equally near ones the larger. -/
def onGrid? (magnitude : Nat) (exponent : Int) : Option Decimal :=
  let (num, den) := stepInHalfUnits exponent
  let value := 2 * unitsOf magnitude * den
  let below := value / num
  match roundsTo magnitude below exponent, roundsTo magnitude (below + 1) exponent with
  | true, true =>
    if value - below * num < (below + 1) * num - value then some ⟨below, exponent⟩
    else some ⟨below + 1, exponent⟩
  | true, false => some ⟨below, exponent⟩
  | false, true => some ⟨below + 1, exponent⟩
  | false, false => none

/-- The numeral with the fewest digits that rounds to a finite magnitude that is not zero.
Seventeen digits always suffice. -/
def shortest (magnitude : Nat) : Decimal :=
  let place := leadingPlace magnitude
  let found := (List.range 17).findSome? fun (k : Nat) => onGrid? magnitude (place - (k + 1))
  (found.getD ⟨0, 0⟩).strip

/-! ### A fixed number of digits -/

/-- The numeral with `places` digits nearest to a finite magnitude that is not zero; a tie goes to
the even numeral. -/
def ofSignificant (magnitude places : Nat) : Decimal :=
  let exponent := leadingPlace magnitude - places
  let (num, den) := stepInHalfUnits exponent
  ⟨nearest (2 * unitsOf magnitude * den) num, exponent⟩

end Decimal

end DramTiming
