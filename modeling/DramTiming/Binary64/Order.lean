import DramTiming.Binary64.Arith

/-!
# Two orders on double-precision numbers

The *numeric* order compares values: the two zeros are equal, and a not-a-number value is neither
equal to anything nor below or above it.  The *total* order tells all representations apart:
negative before positive, and by size within a sign.
-/

namespace DramTiming.Binary64

/-! ### Numeric order -/

/-- The key of the numeric order: magnitudes grow with size, so a signed magnitude orders values,
and both zeros have the key zero. -/
def numericKey (x : Binary64) : Int := if x.negative then -(x.magnitude : Int) else x.magnitude

/-- Numeric equality. -/
def eq (x y : Binary64) : Bool := !x.isNaN && !y.isNaN && x.numericKey = y.numericKey

/-- Numerically less. -/
def lt (x y : Binary64) : Bool := !x.isNaN && !y.isNaN && x.numericKey < y.numericKey

/-- Numerically less or equal. -/
def le (x y : Binary64) : Bool := !x.isNaN && !y.isNaN && x.numericKey ≤ y.numericKey

/-- The larger value; a not-a-number value gives way to a number. -/
def max (x y : Binary64) : Binary64 := if y.isNaN || lt y x then x else if x.isNaN then y else y

/-- The smaller value; a not-a-number value gives way to a number. -/
def min (x y : Binary64) : Binary64 := if y.isNaN || lt x y then x else if x.isNaN then y else y

/-- The value of the range from `lo` to `hi` nearest to `x`; a not-a-number value stays. -/
def clamp (x lo hi : Binary64) : Binary64 :=
  if lt x lo then lo else if lt hi x then hi else x

/-! ### Total order -/

/-- The key of the total order: negative numbers run downward from `-1`, positive ones upward from
`0`, so that `-0` stands just before `0` and the infinities and the not-a-number values stand at
both ends. -/
def totalKey (x : Binary64) : Int := if x.negative then -1 - (x.magnitude : Int) else x.magnitude

/-- At most, in the total order. -/
def totalLE (x y : Binary64) : Bool := x.totalKey ≤ y.totalKey

/-- The values in ascending total order. -/
def sort (values : List Binary64) : List Binary64 := values.mergeSort totalLE

end DramTiming.Binary64
