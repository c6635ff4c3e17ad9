import DramTiming.Analysis.Correlation
import DramTiming.Settings.Basic

/-!
# The log of a run

What a run reports about its progress.  The verbosity of a run tells which of it appears in the log:
everything up to a level, or what a filter lets through.
-/

namespace DramTiming

/-- How important an event is. -/
inductive Level where
  | error
  | warn
  | info
  | debug
  | trace
deriving DecidableEq, Repr

namespace Level

/-- The place of a level in the order of detail. -/
def rank : Level → Nat
  | error => 1
  | warn => 2
  | info => 3
  | debug => 4
  | trace => 5

/-- The name of a level in the log. -/
def name : Level → String
  | error => "ERROR"
  | warn => "WARN"
  | info => "INFO"
  | debug => "DEBUG"
  | trace => "TRACE"

end Level

/-- What an event is about. -/
inductive Topic where
  | noSettingsFile
  | noBuckets
  | chartTooSmall
  | clockEvaluated
  | tableLoaded
  | emptyTable
  | coefficient
  | noTrend
  | correlated
  | chartWritten
deriving DecidableEq, Repr

/-- The level of the events about a topic. -/
def Topic.level : Topic → Level
  | noSettingsFile => .debug
  | noBuckets => .info
  | chartTooSmall => .warn
  | clockEvaluated => .debug
  | tableLoaded => .debug
  | emptyTable => .warn
  | coefficient => .trace
  | noTrend => .debug
  | correlated => .info
  | chartWritten => .info

/-- Which topics a run reports on.  A filter may let any of them through: it can name the part of
the program that an event comes from, and the data that go with the event. -/
structure Verbosity where
  reports : Topic → Bool

namespace Verbosity

/-- Nothing is reported. -/
def silent : Verbosity := ⟨fun _ => false⟩

/-- Everything up to a level is reported. -/
def upTo (last : Level) : Verbosity := ⟨fun topic => topic.level.rank ≤ last.rank⟩

/-- The verbosity of a run: counted on the command line, or else given by a filter in the
environment.  `filter?` tells what a text lets through, if it is a filter. -/
def select (filter? : String → Option Verbosity) (count : Nat) (fromEnvironment : Option String) :
    Verbosity :=
  match count with
  | 0 => (fromEnvironment.bind filter?).getD (.upTo .warn)
  | 1 => .upTo .info
  | 2 => .upTo .debug
  | _ => .upTo .trace

/-- The simplest filters: the name of a level, in any case, or that of silence. -/
def named? (name : String) : Option Verbosity :=
  match String.ofList (name.toList.map Char.toLower) with
  | "off" => some .silent
  | "error" => some (.upTo .error)
  | "warn" => some (.upTo .warn)
  | "info" => some (.upTo .info)
  | "debug" => some (.upTo .debug)
  | "trace" => some (.upTo .trace)
  | _ => none

end Verbosity

/-- Something that a run reports. -/
inductive Event where
  | noSettingsFile
  | noBuckets
  | chartTooSmall (size : ChartSize)
  | clockEvaluated (mult : Nat) (frequencies : Frequencies)
  | tableLoaded (path : Path) (rows : Nat) (errors : Option Nat)
  | emptyTable (path : Path)
  | coefficient (trcd coefficient : Binary64) (rows : Nat)
  | noTrend (label : Label)
  | correlated (source : Path) (correlation : Correlation)
  | chartWritten (path : Path)
deriving DecidableEq

namespace Event

/-- What an event is about. -/
def topic : Event → Topic
  | noSettingsFile => .noSettingsFile
  | noBuckets => .noBuckets
  | chartTooSmall _ => .chartTooSmall
  | clockEvaluated _ _ => .clockEvaluated
  | tableLoaded _ _ _ => .tableLoaded
  | emptyTable _ => .emptyTable
  | coefficient _ _ _ => .coefficient
  | noTrend _ => .noTrend
  | correlated _ _ => .correlated
  | chartWritten _ => .chartWritten

/-- The wording of an event. -/
def message : Event → String
  | noSettingsFile => "no config file; using built-in defaults"
  | noBuckets => "no retention buckets configured; using 0..=120 s in 20 s steps"
  | chartTooSmall size =>
    s!"chart size {size.width}x{size.height} too small; raising to at least " ++
      s!"{minChartSize.width}x{minChartSize.height}"
  | clockEvaluated mult f =>
    s!"evaluated PLL setting mult={mult} ddr_clk={f.ddrClk.toGeneralText} " ++
      s!"fabric_clk={f.fabricClk.toGeneralText}"
  | tableLoaded path rows none => s!"loaded {path} rows={rows}"
  | tableLoaded path rows (some errors) => s!"loaded {path} rows={rows} errors={errors}"
  | emptyTable path => s!"{path} has no rows; chart will be empty"
  | coefficient trcd corr rows =>
    s!"bucket correlation trcd={trcd.toGeneralText} corr={corr.toGeneralText} rows={rows}"
  | noTrend label =>
    s!"{label.display}: per-tRCD correlations are constant; reporting no trend"
  | correlated source c =>
    s!"{c.label.display} ({source}): {c.points.length} tRCD values, " ++
      s!"r = {c.trend.coefficient.toFixedText 4}"
  | chartWritten path => s!"wrote {path}"

/-- The line of an event in the log. -/
def line (e : Event) : String := e.topic.level.name ++ " " ++ e.message

end Event

end DramTiming
