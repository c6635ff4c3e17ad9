import DramTiming.Decimal.Notation
import DramTiming.Table.Basic

/-!
# Error curves

One curve for each retention time that is asked for: the failed share over tRCD, for the rows
measured with that time.
-/

namespace DramTiming

/-- A point of a chart in data coordinates. -/
structure DataPoint where
  x : Binary64
  y : Binary64
deriving DecidableEq

/-- The rows of a table that were measured with a retention time, as points. -/
structure ErrorCurve where
  retention : Binary64
  points : List DataPoint
deriving DecidableEq

/-- The name of a curve in a legend. -/
def ErrorCurve.label (c : ErrorCurve) : String := c.retention.toText ++ "s"

namespace Table

/-- The error curve for a retention time. -/
def errorCurve (t : Table) (retention : Binary64) : ErrorCurve :=
  ⟨retention, (t.rows.filter fun row => Binary64.eq row.retention retention).map fun row =>
    ⟨row.trcd, row.errorPercent⟩⟩

/-- The error curves for a list of retention times. -/
def errorCurves (t : Table) (buckets : List Binary64) : List ErrorCurve := buckets.map t.errorCurve

end Table

/-- The retention times, in seconds, that are used unless others are given. -/
def defaultBuckets : List Binary64 := [0, 20, 40, 60, 80, 100, 120]

end DramTiming
