import DramTiming.Statistics.Beta

/-!
# The significance of a correlation

Under independence the coefficient, suitably scaled, follows Student's distribution; the p-value
is the probability of one at least as far from zero.
-/

namespace DramTiming.Statistics

open Binary64

/-- The probability that a Student variable with `freedom` degrees of freedom exceeds `t`. -/
def studentExceeds? (freedom t : Binary64) : Option Binary64 :=
  (betaRegularized? (freedom / 2) 0.5 (freedom / (freedom + t * t))).map fun beta =>
    let half := 0.5 * beta
    if le t 0 then 1 - half else half

/-- How many degrees of freedom `n` pairs leave. -/
def freedomOf (n : Nat) : Binary64 := Binary64.ofNat (n - 2)

/-- The Student variable that belongs to a coefficient `r`. -/
def studentOf (r freedom : Binary64) : Binary64 := r * sqrt (freedom / (1 - r * r))

/-- The probability that independent samples of `n` pairs have a coefficient as far from zero as
`r`, where `exceeds?` gives that of a Student variable to exceed a value.  Two pairs prove nothing,
and a coefficient of one with more of them leaves no doubt. -/
def pValueWith? (exceeds? : Binary64 → Binary64 → Option Binary64) (r : Binary64) (n : Nat) :
    Option Binary64 :=
  if n ≤ 2 then some 1
  else if le 1 r.abs then some 0
  else (exceeds? (freedomOf n) (studentOf r (freedomOf n)).abs).map fun p => clamp (2 * p) 0 1

/-- The probability that independent samples of `n` pairs have a coefficient as far from zero as
`r`.  A coefficient that is not a number has none. -/
def pValue? (r : Binary64) (n : Nat) : Option Binary64 := pValueWith? studentExceeds? r n

end DramTiming.Statistics
