import DramTiming.Binary64.Basic

/-!
# Arithmetic on double-precision numbers

Each operation takes the exact result on the operands' units and rounds it once.  A result without
a value (`∞ - ∞`, `0 * ∞`, `0 / 0`, `∞ / ∞`, the root of a negative number, and whatever has a
not-a-number operand) is `nan`.
-/

namespace DramTiming.Binary64

/-! ### Sign and size -/

/-- The same size with the other sign. -/
def neg (x : Binary64) : Binary64 := { x with negative := !x.negative }

instance : Neg Binary64 := ⟨neg⟩

/-- The same size without a minus sign. -/
def abs (x : Binary64) : Binary64 := { x with negative := false }

/-- One with the sign of `x`; a not-a-number value stays what it is. -/
def signum (x : Binary64) : Binary64 :=
  if x.isNaN then x else { (1 : Binary64) with negative := x.negative }

/-! ### Field operations -/

/-- The number nearest to `n` units; a zero sum takes the sign given for it. -/
def ofSignedUnits (zeroSign : Bool) (n : Int) : Binary64 :=
  if n = 0 then zero zeroSign else ofUnits (n < 0) n.natAbs 1

/-- The sum.  Two zeros of one sign keep it, any other zero sum is positive. -/
def add (x y : Binary64) : Binary64 :=
  if x.isNaN || y.isNaN then nan
  else if x.isInfinite then
    if y.isInfinite && x.negative != y.negative then nan else x
  else if y.isInfinite then y
  else ofSignedUnits (x.negative && y.negative) (x.signedUnits + y.signedUnits)

/-- The difference. -/
def sub (x y : Binary64) : Binary64 := add x (neg y)

/-- The product. -/
def mul (x y : Binary64) : Binary64 :=
  let negative := x.negative != y.negative
  if x.isNaN || y.isNaN then nan
  else if x.isInfinite then if y.isZero then nan else infinity negative
  else if y.isInfinite then if x.isZero then nan else infinity negative
  else ofUnits negative (x.units * y.units) unitsPerOne

/-- The quotient. -/
def div (x y : Binary64) : Binary64 :=
  let negative := x.negative != y.negative
  if x.isNaN || y.isNaN then nan
  else if x.isInfinite then if y.isInfinite then nan else infinity negative
  else if y.isInfinite then zero negative
  else if y.isZero then if x.isZero then nan else infinity negative
  else ofUnits negative (x.units * unitsPerOne) y.units

instance : Add Binary64 := ⟨add⟩
instance : Sub Binary64 := ⟨sub⟩
instance : Mul Binary64 := ⟨mul⟩
instance : Div Binary64 := ⟨div⟩

/-! ### Square root -/

/-- Newton's iteration for the whole square root of `n`, from a guess that is not too small: the
guesses fall until they reach it. -/
def natSqrtFrom (n guess : Nat) : Nat :=
  let next := (guess + n / guess) / 2
  if next < guess then natSqrtFrom n next else guess
termination_by guess

/-- The largest natural number whose square is at most `n`. -/
def natSqrt (n : Nat) : Nat := if n = 0 then 0 else natSqrtFrom n (twoTo (n.log2 / 2 + 1))

/-- The square root.  The root of `u` units is the root of `u * 2 ^ 1074`, in units.  It is at least
`2 ^ 537`, so only whether it is an integer matters below the point; half a unit stands for
everything between two integers. -/
def sqrt (x : Binary64) : Binary64 :=
  if x.isNaN || x.isZero then x
  else if x.negative then nan
  else if x.isInfinite then x
  else
    let square := x.units * unitsPerOne
    let root := natSqrt square
    ofUnits false (2 * root + if root * root = square then 0 else 1) 2

/-! ### Whole numbers and powers of two -/

/-- The largest integer that is at most `x`, for a finite `x`. -/
def floorInt (x : Binary64) : Int := x.signedUnits / unitsPerOne

/-- The smallest integer that is at least `x`, for a finite `x`. -/
def ceilInt (x : Binary64) : Int := -(-x.signedUnits / unitsPerOne)

/-- Two to the power of an integer. -/
def twoPow (n : Int) : Binary64 :=
  if n < -1074 then ofUnits false 1 (twoTo (-1074 - n).toNat)
  else ofUnits false (twoTo (n + 1074).toNat) 1

end DramTiming.Binary64
