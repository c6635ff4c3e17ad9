import DramTiming.Binary64.Order
import DramTiming.Decimal.Notation
import DramTiming.Decimal.Literal

/-!
# Charts

A chart is a picture of fixed size: a title, two described axes, and series of circles or lines,
each with a colour and a place in the legend.  `Axis.toPixel` takes data to picture coordinates.
-/

namespace DramTiming

open Binary64

/-- The size of a chart in pixels. -/
structure ChartSize where
  width : Nat
  height : Nat
deriving DecidableEq, Repr

/-- A point of a picture; `x` counts from the left and `y` from the top. -/
structure Pixel where
  x : Int
  y : Int
deriving DecidableEq, Repr

/-- How the points of a series are drawn. -/
inductive Mark where
  | circles
  | line
deriving DecidableEq, Repr

/-- A series of a chart. -/
structure Series where
  label : String
  color : String
  mark : Mark
  pixels : List Pixel
deriving DecidableEq, Repr

/-- A chart, with all its data in picture coordinates. -/
structure Chart where
  size : ChartSize
  title : String
  xDescription : String
  yDescription : String
  yTicks : List String
  series : List Series
deriving DecidableEq, Repr

/-! ### Colours -/

/-- The colours of series, in order. -/
def palette : List String :=
  ["#E6194B", "#3CB44B", "#FFE119", "#0082C8", "#F58230", "#911EB4", "#46F0F0",
    "#F032E6", "#D2F53C", "#FABEBE", "#008080", "#E6BEFF", "#AA6E28", "#FFFAC8",
    "#800000", "#AAFFC3", "#808000", "#FFD7B4", "#000080", "#808080", "#000000"]

/-- The colour of the series with a number; after the last colour they begin again. -/
def seriesColor (index : Nat) : String := palette[index % palette.length]?.getD "#000000"

/-! ### Axes -/

/-- The part of an axis that a chart shows. -/
structure AxisRange where
  lo : Binary64
  hi : Binary64
deriving DecidableEq

/-- The largest and the smallest whole number that a picture coordinate can have. -/
def coordinateBound : Int := 2147483648

/-- A whole number as a picture coordinate; what is too large or too small for one takes the
nearest. -/
def toCoordinate (whole : Binary64 → Int) (x : Binary64) : Int :=
  if x.isNaN then 0
  else if x.isInfinite then if x.negative then -coordinateBound else coordinateBound - 1
  else min (coordinateBound - 1) (max (-coordinateBound) (whole x))

/-- What is added before rounding, lest a value on a pixel's edge falls short of it. -/
def pixelTolerance : Binary64 := 1e-3

/-- The coordinate of a value on an axis whose range is drawn from `start` to `stop`. -/
def AxisRange.toPixel (range : AxisRange) (start stop : Int) (v : Binary64) : Int :=
  let share := (v - range.lo) / (range.hi - range.lo)
  let extent := ofInt (stop - start)
  if Binary64.eq range.lo range.hi then (stop - start).tdiv 2
  else if start = stop then stop
  else if share.isInfinite then if share.negative then start else stop
  else if start < stop then start + toCoordinate floorInt (extent * share + pixelTolerance)
  else start + toCoordinate ceilInt (extent * share - pixelTolerance)

/-- The picture coordinates of a data point in a chart with the given axes. -/
def ChartSize.place (size : ChartSize) (xRange yRange : AxisRange) (x y : Binary64) : Pixel :=
  ⟨xRange.toPixel 70 (size.width - 11) x, yRange.toPixel (size.height - 51) 36 y⟩

/-- The point of the plotting area nearest to a pixel. -/
def ChartSize.confine (size : ChartSize) (p : Pixel) : Pixel :=
  ⟨min (size.width - 10) (max 70 p.x), min (size.height - 50) (max 36 p.y)⟩

end DramTiming
