import DramTiming.Power

/-!
# Double-precision numbers

A double-precision number is a sign and a magnitude.  The magnitudes are the first `2 ^ 63`
natural numbers: the finite ones in increasing order of size, then infinity, then the not-a-number
values, which differ by their payload.

The size of a finite number is a whole number of *units* of `2 ^ -1074`, so every question about
values is a question about natural numbers, and each arithmetic operation is the exact result
rounded once by `roundMagnitude`.
-/

namespace DramTiming

/-- A double-precision number, as a sign and a magnitude. -/
structure Binary64 where
  negative : Bool
  magnitude : Nat
  magnitude_lt : magnitude < twoTo 63
deriving DecidableEq

namespace Binary64

/-- The magnitude of the two infinities: those below are finite, those above are not numbers. -/
def infinityMagnitude : Nat := 2047 * twoTo 52

theorem infinityMagnitude_lt : infinityMagnitude < twoTo 63 := by decide

/-- Whether `x` is one of the not-a-number values. -/
def isNaN (x : Binary64) : Bool := infinityMagnitude < x.magnitude

/-- Whether `x` is neither infinite nor a not-a-number value. -/
def isFinite (x : Binary64) : Bool := x.magnitude < infinityMagnitude

/-- Whether `x` is one of the two infinities. -/
def isInfinite (x : Binary64) : Bool := x.magnitude = infinityMagnitude

/-- Whether `x` is one of the two zeros. -/
def isZero (x : Binary64) : Bool := x.magnitude = 0

/-- The zero with the given sign. -/
def zero (negative : Bool) : Binary64 := ⟨negative, 0, by decide⟩

/-- The infinity with the given sign. -/
def infinity (negative : Bool) : Binary64 := ⟨negative, infinityMagnitude, infinityMagnitude_lt⟩

/-- The not-a-number value that stands for a result without a value. -/
def nan : Binary64 := ⟨false, infinityMagnitude + twoTo 51, by decide⟩

/-! ### Size in units -/

/-- The number of units of `2 ^ -1074` in a magnitude.  Below `2 ^ 53` magnitudes count units;
from there each block of `2 ^ 52` magnitudes has steps twice as wide as the block before. -/
def unitsOf (magnitude : Nat) : Nat :=
  if magnitude < twoTo 52 then magnitude
  else (twoTo 52 + magnitude % twoTo 52) * twoTo (magnitude / twoTo 52 - 1)

/-- The size of `x` in units of `2 ^ -1074`. -/
def units (x : Binary64) : Nat := unitsOf x.magnitude

/-- The value of `x` in units of `2 ^ -1074`. -/
def signedUnits (x : Binary64) : Int := if x.negative then -(x.units : Int) else x.units

/-- The number of units in one. -/
def unitsPerOne : Nat := twoTo 1074

/-! ### Rounding -/

/-- The integer nearest to `num / den`; a tie goes to the even neighbour. -/
def nearest (num den : Nat) : Nat :=
  let quotient := num / den
  match compare (2 * (num % den)) den with
  | .lt => quotient
  | .gt => quotient + 1
  | .eq => quotient + quotient % 2

/-- The magnitude nearest to `num / den` units; a tie goes to the even magnitude, and what lies
half a step or more above the largest finite magnitude becomes infinite.

A number of at least `2 ^ 53` units is rounded in steps of `2 ^ shift`, which leaves `2 ^ 52` to
`2 ^ 53` steps. -/
def roundMagnitude (num den : Nat) : Nat :=
  let shift := (num / den).log2 - 52
  min infinityMagnitude (shift * twoTo 52 + nearest num (den * twoTo shift))

theorem roundMagnitude_lt (num den : Nat) : roundMagnitude num den < twoTo 63 :=
  Nat.lt_of_le_of_lt (Nat.min_le_left _ _) infinityMagnitude_lt

/-- The number with the given sign whose size is nearest to `num / den` units. -/
def ofUnits (negative : Bool) (num den : Nat) : Binary64 :=
  ⟨negative, roundMagnitude num den, roundMagnitude_lt num den⟩

/-- The number nearest to an integer. -/
def ofInt (n : Int) : Binary64 := ofUnits (n < 0) (n.natAbs * unitsPerOne) 1

/-- The number nearest to a natural number. -/
def ofNat (n : Nat) : Binary64 := ofUnits false (n * unitsPerOne) 1

instance (n : Nat) : OfNat Binary64 n := ⟨ofNat n⟩

/-- The number nearest to `digits * 10 ^ exponent`.  The two outer cases keep the powers small:
`10 ^ 310` is above every finite number, and what is below `2 ^ -1076` rounds to zero. -/
def ofDecimal (negative : Bool) (digits : Nat) (exponent : Int) : Binary64 :=
  if digits = 0 then zero negative
  else match exponent with
    | .ofNat e =>
      if 310 ≤ e then infinity negative
      else ofUnits negative (digits * tenTo e * unitsPerOne) 1
    | .negSucc e =>
      if digits.log2 + 1077 ≤ 3 * (e + 1) then zero negative
      else ofUnits negative (digits * unitsPerOne) (tenTo (e + 1))

instance : OfScientific Binary64 where
  ofScientific digits negativeExponent exponent :=
    ofDecimal false digits (if negativeExponent then -exponent else exponent)

instance : Inhabited Binary64 := ⟨zero false⟩

end Binary64

end DramTiming
