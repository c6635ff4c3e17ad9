import DramTiming.Analysis.Curves
import DramTiming.Statistics.Pearson
import DramTiming.Statistics.StudentT

/-!
# Correlation of errors with retention time

For each tRCD, how closely the failed share follows the retention time; and over all tRCD values,
how closely these coefficients follow tRCD.
-/

namespace DramTiming

/-- The trend of the coefficients over tRCD. -/
structure Trend where
  coefficient : Binary64
  pValue : Binary64
deriving DecidableEq

/-- The correlation of one run. -/
structure Correlation where
  label : Label
  /-- The coefficient for each tRCD, ascending. -/
  points : List DataPoint
  trend : Trend
deriving DecidableEq

/-- Why a table has no correlation. -/
inductive CorrelationError where
  | tooFewTrcd (found : Nat)
  /-- The coefficient of the trend is not a number. -/
  | noSignificance
deriving DecidableEq, Repr

/-- The wording of a `CorrelationError`. -/
def CorrelationError.message : CorrelationError → String
  | .tooFewTrcd found => s!"need at least 2 distinct tRCD values for a correlation, found {found}"
  | .noSignificance => "t distribution unavailable: the coefficient is not a number"

namespace Table

/-- The correlation of errors with retention time at a tRCD; one that is not defined counts as
none. -/
def coefficientAt (t : Table) (trcd : Binary64) : Binary64 :=
  let rows := t.rowsWithTrcd trcd
  (Statistics.pearson (rows.map Row.errorPercent) (rows.map Row.retention)).getD 0

/-- The coefficient for each tRCD of a table. -/
def coefficients (t : Table) : List DataPoint :=
  t.distinctTrcd.map fun trcd => ⟨trcd, t.coefficientAt trcd⟩

/-- Whether the coefficients of a table have a trend at all. -/
def trendOf? (points : List DataPoint) : Option Binary64 :=
  Statistics.pearson (points.map DataPoint.x) (points.map DataPoint.y)

/-- The correlation of a table, where `pValue?` gives the significance of a coefficient.
Coefficients that do not vary have no trend. -/
def correlationWith (pValue? : Binary64 → Nat → Option Binary64) (t : Table) :
    Except CorrelationError Correlation :=
  let points := t.coefficients
  if points.length < 2 then .error (.tooFewTrcd points.length)
  else match trendOf? points with
    | none => .ok ⟨t.label, points, ⟨0, 1⟩⟩
    | some coefficient =>
      match pValue? coefficient points.length with
      | some pValue => .ok ⟨t.label, points, ⟨coefficient, pValue⟩⟩
      | none => .error .noSignificance

/-- The correlation of a table. -/
def correlation (t : Table) : Except CorrelationError Correlation :=
  t.correlationWith Statistics.pValue?

end Table

namespace Correlation

/-- The tRCD values of a correlation. -/
def trcdValues (c : Correlation) : List Binary64 := c.points.map DataPoint.x

/-- The coefficients of a correlation. -/
def coefficientValues (c : Correlation) : List Binary64 := c.points.map DataPoint.y

/-- The report line of a correlation, with a p-value in a given wording. -/
def reportWith (c : Correlation) (pValueText : String) : String :=
  s!"{c.label.display}, total correlation coefficient = {c.trend.coefficient.toText}, " ++
    s!"p-value = {pValueText}"

/-- The report line of a correlation. -/
def report (c : Correlation) : String := c.reportWith c.trend.pValue.toText

end Correlation

end DramTiming
