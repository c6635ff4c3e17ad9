import DramTiming.Binary64.Exponential

/-!
# A scale for values over many decades

Up to a threshold the scale is linear; beyond it, each step of one is a decade.  Unlike a
logarithmic scale it has a place for zero and for negative values.  The scale is that of any numbers
with decimal logarithms, so that it can be compared with the one of exact numbers.
-/

namespace DramTiming

/-- Numbers with decimal logarithms. -/
class DecimalLog (K : Type) where
  /-- The size of a number. -/
  abs : K → K
  /-- One with the sign of a number. -/
  sign : K → K
  /-- Whether a number is at most another. -/
  atMost : K → K → Bool
  /-- The decimal logarithm. -/
  log10 : K → K
  /-- Ten to the power of a number. -/
  tenPow : K → K

instance : DecimalLog Binary64 :=
  ⟨Binary64.abs, Binary64.signum, Binary64.le, Binary64.log10, Binary64.tenPow⟩

/-- A scale, given by the size up to which it is linear. -/
structure SymLog (K : Type) where
  threshold : K
deriving DecidableEq

namespace SymLog

section Numbers

variable {K : Type} [Add K] [Sub K] [Mul K] [Div K] [OfNat K 1] [DecimalLog K]

open DecimalLog

/-- The place of a value on the scale. -/
def forward (s : SymLog K) (v : K) : K :=
  if atMost (abs v) s.threshold then v / s.threshold
  else sign v * (1 + log10 (abs v / s.threshold))

/-- The value at a place of the scale. -/
def inverse (s : SymLog K) (place : K) : K :=
  if atMost (abs place) 1 then place * s.threshold
  else sign place * s.threshold * tenPow (abs place - 1)

end Numbers

/-- The smallest threshold of a scale for doubles. -/
def leastThreshold : Binary64 := Binary64.twoPow (-1022)

/-- The scale that is linear up to the size of `threshold`, or up to the smallest threshold. -/
def ofThreshold (threshold : Binary64) : SymLog Binary64 :=
  ⟨Binary64.max threshold.abs leastThreshold⟩

end SymLog

end DramTiming
