import DramTiming.Analysis.Curves
import DramTiming.Chart.Basic
import DramTiming.Clock.Basic

/-!
# Settings

What a run uses where its command line says nothing.
-/

namespace DramTiming

/-- The settings of a run. -/
structure Settings where
  clock : ClockSetting
  buckets : List Binary64
  outputDirectory : Path
  chartSize : ChartSize
  datasets : List Dataset
deriving DecidableEq

/-- The size of a chart unless another is given. -/
def defaultChartSize : ChartSize := ⟨1024, 768⟩

/-- The smallest size of a chart. -/
def minChartSize : ChartSize := ⟨320, 240⟩

/-- Whether a chart would be smaller than the smallest size in one direction. -/
def ChartSize.isTooSmall (size : ChartSize) : Bool :=
  size.width < minChartSize.width || size.height < minChartSize.height

/-- A size at least as large as the smallest. -/
def ChartSize.raised (size : ChartSize) : ChartSize :=
  ⟨max size.width minChartSize.width, max size.height minChartSize.height⟩

namespace Settings

/-- The settings without a settings file. -/
def default : Settings := ⟨.default, [], ⟨"plots"⟩, defaultChartSize, []⟩

/-- Settings that a run can use: with retention times, and with a chart of at least the smallest
size. -/
def completed (s : Settings) : Settings :=
  { s with
    buckets := if s.buckets.isEmpty then defaultBuckets else s.buckets
    chartSize := s.chartSize.raised }

end Settings

end DramTiming
