import DramTiming.Binary64.Logarithm

/-!
# The correlation coefficient of two samples

The sums and products are those of any numbers, so that what they compute can be asked of exact
ones.  Doubles are divided by a power of two first, which brings the largest of a sample near one
without rounding, so that no square overflows.
-/

namespace DramTiming.Statistics

/-! ### Any numbers -/

section Numbers

variable {K : Type} [Add K] [Sub K] [Mul K] [Div K] [OfNat K 0]

/-- The sum of a list, added from the left. -/
def sum (values : List K) : K := values.foldl (· + ·) 0

/-- The sum of the products of two lists. -/
def dot (xs ys : List K) : K := sum (List.zipWith (· * ·) xs ys)

/-- The deviations of a sample of the given size from its mean, after division by a scale. -/
def deviations (size scale : K) (values : List K) : List K :=
  let scaled := values.map (· / scale)
  let mean := sum scaled / size
  scaled.map (· - mean)

/-- The geometric mean of two sums of squared deviations. -/
def spread (sqrt : K → K) (dx dy : List K) : K := sqrt (dot dx dx * dot dy dy)

/-- The correlation coefficient of two samples, from their deviations. -/
def coefficient (sqrt : K → K) (dx dy : List K) : K := dot dx dy / spread sqrt dx dy

end Numbers

/-! ### Doubles -/

open Binary64

/-- Whether all values of a list are numerically equal to their successors. -/
def isConstant : List Binary64 → Bool
  | x :: y :: rest => Binary64.eq x y && isConstant (y :: rest)
  | _ => true

/-- The largest size in a list; not-a-number values do not count. -/
def largestSize (values : List Binary64) : Binary64 :=
  values.foldl (fun largest x => Binary64.max largest x.abs) 0

/-- The power of two that a sample is divided by: that of the logarithm of its largest size, rounded
down. -/
def powerScale (values : List Binary64) : Binary64 :=
  let largest := largestSize values
  if lt 0 largest && largest.isFinite then twoPow (log2 largest).floorInt else 1

/-- The correlation coefficient of two samples that are divided by the given scales.  Samples of
different sizes, samples of fewer than two values and constant samples have none. -/
def pearsonScaled (scaleX scaleY : Binary64) (xs ys : List Binary64) : Option Binary64 :=
  if xs.length ≠ ys.length ∨ xs.length < 2 ∨ isConstant xs ∨ isConstant ys then none
  else
    let size := Binary64.ofNat xs.length
    let dx := deviations size scaleX xs
    let dy := deviations size scaleY ys
    if lt 0 (spread sqrt dx dy) then some (clamp (coefficient sqrt dx dy) (-1) 1) else none

/-- The correlation coefficient of two samples. -/
def pearson (xs ys : List Binary64) : Option Binary64 :=
  pearsonScaled (powerScale xs) (powerScale ys) xs ys

end DramTiming.Statistics
