import DramTiming.Main
import DramTiming.Proofs.Binary64.Bounds
import DramTiming.Proofs.Table.Composition
import DramTiming.Proofs.Table.Layout
import DramTiming.Proofs.Session.Program
import DramTiming.Proofs.Binary64.Order
import DramTiming.Proofs.Binary64.Logarithm
import DramTiming.Proofs.Statistics.Pearson
import DramTiming.Proofs.Binary64.SquareRoot
import DramTiming.Proofs.Statistics.Significance
import DramTiming.Proofs.Analysis.Correlation
import DramTiming.Proofs.Analysis.Arrangement
import DramTiming.Proofs.Files.Tree
import DramTiming.Proofs.Session.Reading
import DramTiming.Proofs.Session.Loading
import DramTiming.Proofs.Session.Saving
import DramTiming.Proofs.Session.Correlating
import DramTiming.Proofs.Statistics.StudentT
import DramTiming.Proofs.Session.Curves
import DramTiming.Proofs.Table.Lines
import DramTiming.Proofs.Binary64.Scaling
import DramTiming.Proofs.Binary64.Magnitude
import DramTiming.Proofs.Statistics.Definedness
import DramTiming.Proofs.Analysis.Definedness
import DramTiming.Proofs.Clock.Sweep
import DramTiming.Proofs.Arguments.Options
import DramTiming.Proofs.Session.Settings
import DramTiming.Proofs.Session.Sweep
import DramTiming.Proofs.Toml.Distinct
import DramTiming.Proofs.Settings.Layers
import DramTiming.Proofs.Session.Layers
import DramTiming.Proofs.Session.Clocks
import DramTiming.Proofs.Session.Interruption
import DramTiming.Proofs.Label
import DramTiming.Proofs.Session.Groups
import DramTiming.Proofs.Session.Manufacturers
import DramTiming.Proofs.Label.Grammar
import DramTiming.Proofs.Table.Buckets
import DramTiming.Proofs.Table.Counts
import DramTiming.Proofs.Binary64.Reflection
import DramTiming.Proofs.Statistics.Symmetry
import DramTiming.Proofs.Analysis.Symmetry
import DramTiming.Proofs.Binary64.Doubling
import DramTiming.Proofs.Clock.Range
import DramTiming.Proofs.Statistics.Units
import DramTiming.Proofs.Binary64.Midpoints
import DramTiming.Proofs.Clock.Conversion
import DramTiming.Proofs.Statistics.Exact
import DramTiming.Proofs.Binary64.Monotone
import DramTiming.Proofs.Chart.Exact
import DramTiming.Proofs.Chart.Scale
import DramTiming.Proofs.Label.Titles
import DramTiming.Proofs.Session.Charts
import DramTiming.Proofs.Statistics.PValue
import DramTiming.Proofs.Binary64.Sorting
