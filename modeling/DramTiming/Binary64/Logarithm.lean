import DramTiming.Binary64.Order

/-!
# Logarithms of double-precision numbers

The logarithm to base two is computed in fixed point with `logPlaces` binary places: the position of
the leading digit is its whole part, and each squaring of the remaining factor between one and two
yields one binary digit more.  Squares are truncated, so the result is at most the true logarithm,
and it falls short of it by less than `2 ^ -158`.

The other bases divide by a logarithm of the same kind.  Each result is rounded once.  In particular
the logarithm of one is zero and the logarithm of infinity is infinity.
-/

namespace DramTiming.Binary64

/-- The number of binary places of a fixed-point logarithm. -/
def logPlaces : Nat := 160

/-- One more binary digit of a logarithm: `factor` is between one and two with `logPlaces` places,
and `digits` are the digits found so far. -/
def log2Step (state : Nat × Nat) (_ : Nat) : Nat × Nat :=
  let square := state.1 * state.1 / twoTo logPlaces
  if twoTo (logPlaces + 1) ≤ square then (square / 2, 2 * state.2 + 1) else (square, 2 * state.2)

/-- The logarithm to base two of `units` of `2 ^ -unitPlaces`, in fixed point. -/
def log2Fixed (units unitPlaces : Nat) : Int :=
  let factor := units * twoTo logPlaces / twoTo units.log2
  let digits := ((List.range logPlaces).foldl log2Step (factor, 0)).2
  ((units.log2 : Int) - unitPlaces) * twoTo logPlaces + digits

/-- Twice the sum of `1 / ((2k + 1) * 3 ^ (2k + 1))`, which is the natural logarithm of two, in
fixed point. -/
def lnTwoFixed : Nat :=
  let term (k : Nat) := 2 * twoTo logPlaces / ((2 * k + 1) * Nat.pow 3 (2 * k + 1))
  (List.range 52).foldl (fun total k => total + term k) 0

/-- The logarithm to base two of ten, in fixed point. -/
def log2TenFixed : Nat := (log2Fixed 10 0).toNat

/-- The number nearest to `num / den`. -/
def ofIntRatio (num : Int) (den : Nat) : Binary64 :=
  ofUnits (num < 0) (num.natAbs * unitsPerOne) den

/-- A logarithm, from its values at finite positive numbers: zero has the logarithm `-∞`, infinity
the logarithm `∞`, and a negative number none. -/
def logarithm (x : Binary64) (finite : Int → Binary64) : Binary64 :=
  if x.isNaN then x
  else if x.isZero then infinity true
  else if x.negative then nan
  else if x.isInfinite then x
  else finite (log2Fixed x.units 1074)

/-- The logarithm to base two. -/
def log2 (x : Binary64) : Binary64 := logarithm x fun l => ofIntRatio l (twoTo logPlaces)

/-- The logarithm to base ten. -/
def log10 (x : Binary64) : Binary64 := logarithm x fun l => ofIntRatio l log2TenFixed

/-- The natural logarithm. -/
def ln (x : Binary64) : Binary64 :=
  logarithm x fun l => ofIntRatio (l * lnTwoFixed) (twoTo (2 * logPlaces))

end DramTiming.Binary64
