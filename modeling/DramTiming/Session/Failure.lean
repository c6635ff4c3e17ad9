import DramTiming.Analysis.Correlation
import DramTiming.Clock.Basic
import DramTiming.Settings.Document
import DramTiming.Table.Reader

/-!
# Why a run fails

A failure is a cause, within the activities in whose course it came up.  It is reported as a chain
of texts, from the outermost activity to the root of the cause.
-/

namespace DramTiming

/-- In whose course a failure came up. -/
inductive Activity where
  | loadingSettings (path : Path)
  | evaluatingClock
  | drawingCurves (path : Path)
  | correlating (path : Path)
  | drawingCorrelations (manufacturer : String)
deriving DecidableEq, Repr

/-- The wording of an `Activity`. -/
def Activity.message : Activity → String
  | .loadingSettings path => s!"loading config {path}"
  | .evaluatingClock => "invalid PLL configuration"
  | .drawingCurves path => s!"rendering curves for {path}"
  | .correlating path => s!"correlating {path}"
  | .drawingCorrelations manufacturer => s!"rendering correlation chart for {manufacturer}"

/-- Why a run fails. -/
inductive Failure where
  | settings (cause : Settings.LoadError)
  | clock (cause : ClockError)
  | table (cause : TableError)
  | correlation (cause : CorrelationError)
  | noDatasets
  | outputDirectory (path : Path) (cause : FileError)
  | drawing (cause : FileError)
  /-- A table's error counts, added up for the log, do not fit a 64-bit word. -/
  | countOverflow
  | during (activity : Activity) (cause : Failure)
deriving DecidableEq, Repr

namespace Failure

/-- What is said of a sum that leaves its word. -/
def overflowText : String := "attempt to add with overflow"

/-- The texts of a failure, the outermost first.  Where a text quotes a file error, that follows
on its own. -/
def chain : Failure → List String
  | settings cause => [cause.message]
  | clock cause => [cause.message]
  | table (.unopenable path cause) => [(TableError.unopenable path cause).message, cause.message]
  | table cause => [cause.message]
  | correlation cause => [cause.message]
  | noDatasets => ["no datasets: pass CSV paths or list [[datasets]] in the config"]
  | outputDirectory path cause =>
    [s!"cannot create output directory {path}: {cause.message}", cause.message]
  | drawing cause => [s!"drawing failed: backend error: Drawing backend error: {cause.message}"]
  | countOverflow => [overflowText]
  | during activity cause => activity.message :: cause.chain

/-- The failure without the activities around it. -/
def root : Failure → Failure
  | during _ cause => cause.root
  | cause => cause

/-- One cause in a report, each line of it indented; if there are several they are numbered. -/
def reportCause (number : Option Nat) (text : String) : List String :=
  let first :=
    match number with
    | none => "    "
    | some n => String.ofList (List.replicate (5 - (toString n).length) ' ') ++ s!"{n}: "
  let further := if number.isSome then "       " else "    "
  match text.splitOn "\n" with
  | [] => [first]
  | line :: lines => (first ++ line) :: lines.map (further ++ ·)

/-- The lines that report a failure. -/
def report (f : Failure) : List String :=
  match f.chain with
  | [] => []
  | [top] => ("Error: " ++ top).splitOn "\n"
  | [top, cause] =>
    ("Error: " ++ top).splitOn "\n" ++ ["", "Caused by:"] ++ reportCause none cause
  | top :: causes =>
    ("Error: " ++ top).splitOn "\n" ++ ["", "Caused by:"] ++
      (causes.zipIdx.map fun (cause, n) => reportCause (some n) cause).flatten

end Failure

end DramTiming
