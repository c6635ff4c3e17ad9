import DramTiming.Analysis.Correlation
import DramTiming.Chart.Basic
import DramTiming.Chart.SymLog

/-!
# The two charts

The curve chart of a run shows its error curves over tRCD, on a vertical scale that has a place
for zero.  The correlation chart of a manufacturer shows the coefficients of its runs.  Both choose
their horizontal range so that all data lie within it.
-/

namespace DramTiming

open Binary64

/-! ### Error curves -/

/-- The scale of the failed share; it is linear up to a hundredth of a per cent. -/
def errorScale : SymLog Binary64 := .ofThreshold 0.01

/-- The range of tRCD in a curve chart: from zero to a little beyond the largest value. -/
def curveRange (curves : List ErrorCurve) : AxisRange :=
  let xs := curves.flatMap fun c => c.points.map DataPoint.x
  let largest := xs.foldl Binary64.max 0
  ⟨0, if lt 0 largest then largest * 1.05 else 1⟩

/-- The range of the failed share in a curve chart, on its scale. -/
def errorRange : AxisRange := ⟨errorScale.forward 0, errorScale.forward 100⟩

/-- The labels of the failed share: half a decade apart, with two decimals. -/
def errorTicks : List String :=
  (List.range 11).map fun k => (errorScale.inverse (Binary64.ofNat k / 2)).toFixedText 2

/-- The chart of a run's error curves. -/
def curveChart (size : ChartSize) (title : String) (curves : List ErrorCurve) : Chart :=
  let xRange := curveRange curves
  { size := size
    title := title
    xDescription := "tRCD in ns"
    yDescription := "Errors in %"
    yTicks := errorTicks
    series := curves.zipIdx.map fun (curve, index) =>
      { label := curve.label
        color := seriesColor index
        mark := .circles
        pixels := curve.points.map fun p =>
          size.confine (size.place xRange errorRange p.x (errorScale.forward p.y)) } }

/-! ### Correlations -/

/-- Widens a range by a twentieth at both ends; a range of one value is widened by one, and a range
without values is that from zero to one. -/
def AxisRange.padded (r : AxisRange) : AxisRange :=
  if lt r.lo r.hi then
    let pad := (r.hi - r.lo) * 0.05
    ⟨r.lo - pad, r.hi + pad⟩
  else if r.lo.isFinite then ⟨r.lo - 1, r.lo + 1⟩
  else ⟨0, 1⟩

/-- The range of tRCD in a correlation chart. -/
def correlationRange (correlations : List Correlation) : AxisRange :=
  let xs := correlations.flatMap Correlation.trcdValues
  AxisRange.padded ⟨xs.foldl Binary64.min (infinity false), xs.foldl Binary64.max (infinity true)⟩

/-- The range of coefficients. -/
def coefficientRange : AxisRange := ⟨-1, 1⟩

/-- The labels of coefficients: a fifth apart, with one decimal. -/
def coefficientTicks : List String :=
  (List.range 11).map fun k => (ofInt (Int.ofNat k - 5) / 5).toFixedText 1

/-- The chart of a manufacturer's correlations. -/
def correlationChart (size : ChartSize) (manufacturer : String) (correlations : List Correlation) :
    Chart :=
  let xRange := correlationRange correlations
  { size := size
    title := s!"Correlation between retention time and errors, {manufacturer}"
    xDescription := "tRCD in ns"
    yDescription := "Correlation"
    yTicks := coefficientTicks
    series := correlations.zipIdx.map fun (correlation, index) =>
      { label := correlation.label.display
        color := seriesColor index
        mark := .line
        pixels := correlation.points.map fun p => size.place xRange coefficientRange p.x p.y } }

end DramTiming
