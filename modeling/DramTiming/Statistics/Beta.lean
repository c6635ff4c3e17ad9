import DramTiming.Statistics.Gamma

/-!
# The regularised incomplete beta function

A continued fraction, evaluated by Lentz' method, gives the function for small arguments; its
symmetry gives it for large ones.
-/

namespace DramTiming.Statistics

open Binary64

/-- Half the distance from one to the next larger number. -/
def precision : Binary64 := twoPow (-53)

/-- What stands for a vanishing denominator in Lentz' method. -/
def tiny : Binary64 := twoPow (-1022) / precision

/-- Replaces a vanishing denominator. -/
def awayFromZero (x : Binary64) : Binary64 := if lt x.abs tiny then tiny else x

/-- The state of Lentz' method: the two running ratios and the value so far. -/
structure Lentz where
  c : Binary64
  d : Binary64
  value : Binary64

namespace Lentz

/-- Takes one more coefficient of the continued fraction into the two ratios. -/
def extend (s : Lentz) (coefficient : Binary64) : Lentz :=
  { s with
    d := 1 / awayFromZero (1 + coefficient * s.d)
    c := awayFromZero (1 + coefficient / s.c) }

/-- The coefficient of step `m` with an even index. -/
def evenCoefficient (a b x m : Binary64) : Binary64 :=
  m * (b - m) * x / ((a - 1 + m * 2) * (a + m * 2))

/-- The coefficient of step `m` with an odd index. -/
def oddCoefficient (a b x m : Binary64) : Binary64 :=
  -(a + m) * (a + b + m) * x / ((a + m * 2) * (a + 1 + m * 2))

/-- Takes the steps from `m` on, at most `steps` of them, until the value no longer changes. -/
def run (a b x : Binary64) (s : Lentz) (m : Nat) : (steps : Nat) → Binary64
  | 0 => s.value
  | steps + 1 =>
    let even := s.extend (evenCoefficient a b x (Binary64.ofNat m))
    let odd := even.extend (oddCoefficient a b x (Binary64.ofNat m))
    let change := odd.d * odd.c
    let value := s.value * even.d * even.c * change
    if le (change - 1).abs precision then value
    else run a b x { odd with value := value } (m + 1) steps

end Lentz

/-- The continued fraction of the incomplete beta function. -/
def betaFraction (a b x : Binary64) : Binary64 :=
  let d := 1 / awayFromZero (1 - (a + b) * x / (a + 1))
  Lentz.run a b x ⟨1, d, d⟩ 1 140

/-- Whether `x` is within four neighbours, or the spacing of numbers above one, of one. -/
def nearOne (x : Binary64) : Bool :=
  le (x - 1).abs (twoPow (-52)) || (x.magnitude ≤ (1 : Binary64).magnitude + 4
    && (1 : Binary64).magnitude ≤ x.magnitude + 4)

/-- The factor in front of the continued fraction, which vanishes at both ends. -/
def betaFactor (a b x : Binary64) : Binary64 :=
  if le x (twoPow (-52)) || nearOne x then 0
  else exp (lnGamma (a + b) - lnGamma a - lnGamma b + a * ln x + b * ln (1 - x))

/-- The regularised incomplete beta function, for positive `a` and `b`; outside of the interval from
zero to one it has no value. -/
def betaRegularized? (a b x : Binary64) : Option Binary64 :=
  if !(le 0 x && le x 1) then none
  else
    let factor := betaFactor a b x
    if le ((a + 1) / (a + b + 2)) x then
      some (1 - factor * betaFraction b a (1 - x) / b)
    else some (factor * betaFraction a b x / a)

end DramTiming.Statistics
