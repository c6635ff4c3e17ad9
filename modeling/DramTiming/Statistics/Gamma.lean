import DramTiming.Binary64.Exponential

/-!
# The logarithm of the gamma function

Lanczos' approximation with eleven terms, for arguments of at least one half.
-/

namespace DramTiming.Statistics

open Binary64

/-- The free parameter of the approximation. -/
def lanczosShift : Binary64 := 10.900511

/-- The first coefficient of the approximation. -/
def lanczosConstant : Binary64 := 2.48574089138753565546e-5

/-- The coefficients of the partial fractions of the approximation. -/
def lanczosCoefficients : List Binary64 :=
  [1.05142378581721974210, -3.45687097222016235469, 4.51227709466894823700,
    -2.98285225323576655721, 1.05639711577126713077, -1.95428773191645869583e-1,
    1.70970543404441224307e-2, -5.71926117404305781283e-4, 4.63399473359905636708e-6,
    -2.71994908488607703910e-9]

/-- Twice the square root of Euler's number over pi, as a logarithm. -/
def lnTwoSqrtEOverPi : Binary64 := 0.6207822376352452223455184457816472122518527279025978

/-- Euler's number. -/
def euler : Binary64 := 2.71828182845904523536028747135266250

/-- The sum of the partial fractions at `x`. -/
def lanczosSum (x : Binary64) : Binary64 :=
  lanczosCoefficients.zipIdx.foldl
    (fun sofar (coefficient, k) => sofar + coefficient / (x + Binary64.ofNat (k + 1) - 1))
    lanczosConstant

/-- The logarithm of the gamma function at `x`, which is at least one half. -/
def lnGamma (x : Binary64) : Binary64 :=
  ln (lanczosSum x) + lnTwoSqrtEOverPi + (x - 0.5) * ln ((x - 0.5 + lanczosShift) / euler)

end DramTiming.Statistics
