import DramTiming.Binary64.Logarithm

/-!
# Exponentials of double-precision numbers

Both exponentials go through powers of two: the exponent is rewritten to base two in fixed point,
its whole part becomes a shift, and a power series gives the factor between one and two that
belongs to the rest.  The result is rounded once.
-/

namespace DramTiming.Binary64

/-- One more term of the exponential series: `state` holds the last term and the sum so far. -/
def expStep (exponent : Nat) (state : Nat × Nat) (k : Nat) : Nat × Nat :=
  let term := state.1 * exponent / ((k + 1) * twoTo logPlaces)
  (term, state.2 + term)

/-- The exponential of a fixed-point number between zero and one. -/
def expFixed (exponent : Nat) : Nat :=
  ((List.range 40).foldl (expStep exponent) (twoTo logPlaces, twoTo logPlaces)).2

/-- Two to the power of a fixed-point number.  Beyond `±2000` the result is infinite or zero
whatever the exponent. -/
def twoPowFixed (exponent : Int) : Binary64 :=
  let whole := exponent / twoTo logPlaces
  let rest := (exponent % twoTo logPlaces).toNat
  let factor := expFixed (rest * lnTwoFixed / twoTo logPlaces)
  if 2000 ≤ whole then infinity false
  else if whole < -2000 then zero false
  else ofUnits false (factor * twoTo (whole + 2000).toNat * unitsPerOne) (twoTo (logPlaces + 2000))

/-- An exponential, from its exponent to base two for a finite `x`. -/
def exponential (x : Binary64) (toBaseTwo : Int → Int) : Binary64 :=
  if x.isNaN then x
  else if x.isInfinite then if x.negative then zero false else x
  else twoPowFixed (toBaseTwo x.signedUnits)

/-- The natural exponential. -/
def exp (x : Binary64) : Binary64 :=
  exponential x fun units => units * twoTo (2 * logPlaces) / (lnTwoFixed * unitsPerOne)

/-- Ten to the power of `x`. -/
def tenPow (x : Binary64) : Binary64 :=
  exponential x fun units => units * log2TenFixed / unitsPerOne

end DramTiming.Binary64
