import DramTiming.Arguments.Basic
import DramTiming.Chart.Axes
import DramTiming.Session.Failure
import DramTiming.Session.Host

/-!
# Running commands

Each command is a program in any monad with a `Host`, and may fail.  What it did before it fails
stays done.  `correlateAll` looks at all its measurement files before it writes anything,
`drawAllCurves` at one after the other.
-/

namespace DramTiming

variable {m : Type → Type} [Monad m] [Host m]

/-- A part of a run: it may fail. -/
abbrev Attempt (m : Type → Type) (α : Type) : Type := ExceptT Failure m α

namespace Attempt

/-- Reports an event, if the verbosity asks for it. -/
def report (v : Verbosity) (event : Event) : Attempt m Unit :=
  if v.reports event.topic then ExceptT.lift (Host.report event) else pure ()

/-- Prints a line of results. -/
def print (line : String) : Attempt m Unit := ExceptT.lift (Host.print line)

/-- Goes on with a result, or fails for its error. -/
def ofExcept (result : Except ε α) (failure : ε → Failure) : Attempt m α :=
  match result with
  | .ok a => pure a
  | .error cause => throw (failure cause)

/-- Names the activity in whose course an attempt may fail. -/
def during (activity : Activity) (attempt : Attempt m α) : Attempt m α :=
  tryCatch attempt fun cause => throw (.during activity cause)

end Attempt

open Attempt

/-! ### Measurement files -/

/-- Reports that a table has been loaded, with the number of its errors, which is added up for
this report only. -/
def reportLoaded (v : Verbosity) (table : Table) : Attempt m Unit :=
  if v.reports .tableLoaded then
    match table.totalErrorCount with
    | .overflow => throw .countOverflow
    | .unknown => Attempt.report v (.tableLoaded table.source table.rows.length none)
    | .known count => Attempt.report v (.tableLoaded table.source table.rows.length (some count))
  else pure ()

/-- Loads a measurement file. -/
def loadTable (v : Verbosity) (dataset : Dataset) : Attempt m Table := do
  let contents ← ExceptT.lift (Host.readFile dataset.path)
  let table ← ofExcept (dataset.toTable contents) .table
  reportLoaded v table
  return table

/-- Makes the directory for charts. -/
def makeOutputDirectory (out : Path) : Attempt m Unit := do
  let result ← ExceptT.lift (Host.makeDirectories out)
  ofExcept result (.outputDirectory out)

/-- Writes a chart, and reports that it is written. -/
def saveChart (v : Verbosity) (path : Path) (chart : Chart) : Attempt m Unit := do
  let result ← ExceptT.lift (Host.saveChart path chart)
  ofExcept result .drawing
  Attempt.report v (.chartWritten path)

/-! ### Error curves -/

/-- The path of the curve chart of a measurement file. -/
def curvesPath (out : Path) (dataset : Dataset) : Path :=
  out.join (dataset.path.fileStem?.getD "dataset" ++ "_curves.svg")

/-- Draws the error curves of a measurement file. -/
def drawCurves (v : Verbosity) (buckets : List Binary64) (out : Path) (size : ChartSize)
    (dataset : Dataset) : Attempt m Path := do
  let table ← loadTable v dataset
  if table.rows.isEmpty then Attempt.report v (.emptyTable table.source)
  let path := curvesPath out dataset
  let chart := curveChart size table.label.title (table.errorCurves buckets)
  during (.drawingCurves dataset.path) (saveChart v path chart)
  return path

/-- Draws the error curves of measurement files, one chart for each, and returns their paths. -/
def drawAllCurves (v : Verbosity) (datasets : List Dataset) (buckets : List Binary64) (out : Path)
    (size : ChartSize) : Attempt m (List Path) := do
  makeOutputDirectory out
  datasets.mapM (drawCurves v buckets out size)

/-! ### Correlations -/

/-- Reports the coefficients of a table, if there are at least two, and whether they have no
trend. -/
def reportCoefficients (v : Verbosity) (table : Table) : Attempt m Unit := do
  let points := table.coefficients
  if 2 ≤ points.length then
    points.forM fun p =>
      Attempt.report v (.coefficient p.x p.y (table.rowsWithTrcd p.x).length)
    if (Table.trendOf? points).isNone then Attempt.report v (.noTrend table.label)

/-- Correlates a measurement file. -/
def correlateOne (v : Verbosity) (dataset : Dataset) : Attempt m Correlation := do
  let table ← loadTable v dataset
  if v.reports .coefficient || v.reports .noTrend then reportCoefficients v table
  let correlation ← during (.correlating dataset.path) (ofExcept table.correlation .correlation)
  Attempt.report v (.correlated table.source correlation)
  return correlation

/-- The correlations of a manufacturer. -/
structure Group where
  manufacturer : String
  members : List Correlation

/-- Adds a correlation to the group of its manufacturer, which is opened at the end if there is
none. -/
def addToGroups (c : Correlation) : List Group → List Group
  | [] => [⟨c.label.manufacturer, [c]⟩]
  | g :: groups =>
    if g.manufacturer = c.label.manufacturer then { g with members := g.members ++ [c] } :: groups
    else g :: addToGroups c groups

/-- The correlations by manufacturer, in the order in which the manufacturers come up. -/
def groupByManufacturer (correlations : List Correlation) : List Group :=
  correlations.foldl (fun groups c => addToGroups c groups) []

/-- The path of the correlation chart of a manufacturer. -/
def correlationPath (out : Path) (manufacturer : String) : Path :=
  out.join (manufacturer ++ "_correlation.svg")

/-- Draws the correlations of a manufacturer. -/
def drawCorrelations (v : Verbosity) (out : Path) (size : ChartSize) (group : Group) :
    Attempt m Unit :=
  let chart := correlationChart size group.manufacturer group.members
  during (.drawingCorrelations group.manufacturer)
    (saveChart v (correlationPath out group.manufacturer) chart)

/-- Correlates measurement files, and draws one chart for each manufacturer. -/
def correlateAll (v : Verbosity) (datasets : List Dataset) (out : Path) (size : ChartSize) :
    Attempt m (List Correlation) := do
  let correlations ← datasets.mapM (correlateOne v)
  makeOutputDirectory out
  (groupByManufacturer correlations).forM (drawCorrelations v out size)
  return correlations

/-! ### Clocks -/

/-- The line of a sweep for one multiplier. -/
def sweepLine (mult : Nat) (f : Frequencies) : String :=
  s!"{mult}, {f.ddrClk.toText}, {f.fabricClk.toText}"

/-- The clock setting of a run: what the command line gives, and the rest from the settings. -/
def PllArguments.setting (a : PllArguments) (base : ClockSetting) : ClockSetting :=
  { baseClk := a.baseClk.getD base.baseClk
    clkfboutMult := a.mult.getD base.clkfboutMult
    divclkDivide := a.divclkDivide.getD base.divclkDivide
    clkoutDivide := a.clkoutDivide.getD base.clkoutDivide }

/-- Evaluates a range of multipliers. -/
def printSweep (v : Verbosity) (setting : ClockSetting) (range : MultRange) : Attempt m Unit := do
  Attempt.print "mult, ddr_clk, fabric_clk"
  let rows ← ofExcept (setting.sweep range) .clock
  rows.forM fun (mult, f) => Attempt.report v (.clockEvaluated mult f)
  rows.forM fun (mult, f) => Attempt.print (sweepLine mult f)

/-- Converts `count` tRCD values from `cycles` on. -/
def printTrcdFrom (fabricClk : Binary64) (cycles : Nat) : (count : Nat) → Attempt m Unit
  | 0 => pure ()
  | count + 1 => do
    let ns ← ofExcept (trcdNs cycles fabricClk) .clock
    Attempt.print s!"tRCD {cycles} cycles = {ns.toText} ns"
    printTrcdFrom fabricClk (cycles + 1) count

/-- Evaluates one setting, and converts tRCD values up to a number of cycles. -/
def printClocks (setting : ClockSetting) (trcdCycles : Option Nat) : Attempt m Unit := do
  let f ← during .evaluatingClock (ofExcept setting.frequencies .clock)
  Attempt.print f.ddrClk.toText
  Attempt.print f.fabricClk.toText
  printTrcdFrom f.fabricClk 1 (trcdCycles.getD 0)

/-- Evaluates clocks. -/
def evaluateClocks (v : Verbosity) (settings : Settings) (a : PllArguments) : Attempt m Unit :=
  let setting := a.setting settings.clock
  match a.sweep with
  | some range => printSweep v setting range
  | none => printClocks setting a.trcdCycles

/-! ### Commands -/

/-- The measurement files of a run: those on the command line, or else those in the settings. -/
def selectDatasets (settings : Settings) (paths : List Path) : Attempt m (List Dataset) :=
  let datasets := if paths.isEmpty then settings.datasets else paths.map Dataset.ofPath
  if datasets.isEmpty then throw .noDatasets else pure datasets

/-- Runs a command. -/
def runCommand (v : Verbosity) (settings : Settings) : Command → Attempt m Unit
  | .pll a => evaluateClocks v settings a
  | .curves paths buckets out => do
    let datasets ← selectDatasets settings paths
    let buckets := if buckets.isEmpty then settings.buckets else buckets
    let out := out.getD settings.outputDirectory
    discard (drawAllCurves v datasets buckets out settings.chartSize)
  | .correlate paths out => do
    let datasets ← selectDatasets settings paths
    let correlations ←
      correlateAll v datasets (out.getD settings.outputDirectory) settings.chartSize
    correlations.forM fun c => Attempt.print c.report

/-! ### Settings -/

/-- Where the settings are if the command line does not tell. -/
def defaultSettingsFile : Path := ⟨"config/analysis.toml"⟩

/-- Loads a settings file. -/
def loadSettings (path : Path) : Attempt m Settings := do
  let contents ← ExceptT.lift (Host.readFile path)
  ofExcept (Settings.ofFile contents) .settings

/-- The settings of a run: from the given file, or from that at the default place if there is one.
-/
def findSettings (v : Verbosity) (given : Option Path) : Attempt m Settings := do
  match given with
  | some path => during (.loadingSettings path) (loadSettings path)
  | none =>
    if ← ExceptT.lift (Host.pathExists defaultSettingsFile) then
      during (.loadingSettings defaultSettingsFile) (loadSettings defaultSettingsFile)
    else
      Attempt.report v .noSettingsFile
      return .default

/-- Completes the settings of a run, and reports what had to be changed. -/
def completeSettings (v : Verbosity) (settings : Settings) : Attempt m Settings := do
  if settings.buckets.isEmpty then Attempt.report v .noBuckets
  if settings.chartSize.isTooSmall then Attempt.report v (.chartTooSmall settings.chartSize)
  return settings.completed

/-- Does what a command line asks for. -/
def run (v : Verbosity) (line : CommandLine) : Attempt m Unit := do
  let settings ← findSettings v line.settingsFile
  let settings ← completeSettings v settings
  runCommand v settings line.command

end DramTiming
