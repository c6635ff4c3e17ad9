import DramTiming.Chart.Basic
import DramTiming.Text.Utf8

/-!
# Charts as SVG documents
-/

namespace DramTiming

namespace Svg

/-- Writes a text so that no character of it is taken for markup. -/
def escape (text : String) : String :=
  String.join <| text.toList.map fun c =>
    match c with
    | '<' => "&lt;"
    | '>' => "&gt;"
    | '&' => "&amp;"
    | '\x22' => "&quot;"
    | '\x27' => "&apos;"
    | c => c.toString

/-- A line of text at a pixel. -/
def text (p : Pixel) (content : String) : String :=
  s!"<text x=\"{p.x}\" y=\"{p.y}\" font-family=\"sans-serif\" fill=\"#000000\">\n" ++
    escape content ++ "\n</text>\n"

/-- A filled circle around a pixel. -/
def circle (color : String) (p : Pixel) : String :=
  s!"<circle cx=\"{p.x}\" cy=\"{p.y}\" r=\"3\" opacity=\"0.9\" fill=\"{color}\" stroke=\"none\"/>\n"

/-- A line through pixels. -/
def polyline (color : String) (pixels : List Pixel) : String :=
  let points := " ".intercalate (pixels.map fun p => s!"{p.x},{p.y}")
  s!"<polyline fill=\"none\" opacity=\"0.9\" stroke=\"{color}\" stroke-width=\"2\" " ++
    s!"points=\"{points}\"/>\n"

/-- The data of a series. -/
def series (s : Series) : String :=
  match s.mark with
  | .circles => String.join (s.pixels.map (circle s.color))
  | .line => polyline s.color s.pixels

/-- The entry of a series in the legend, in its row. -/
def legendEntry (row : Nat) (s : Series) : String :=
  let y : Int := 50 + 20 * row
  let sign :=
    match s.mark with
    | .circles => circle s.color ⟨93, y⟩
    | .line => polyline s.color [⟨85, y⟩, ⟨105, y⟩]
  sign ++ text ⟨115, y⟩ s.label

/-- The label of a tick of the vertical axis, of which there are `count`. -/
def tick (size : ChartSize) (count row : Nat) (label : String) : String :=
  let extent : Int := size.height - 87
  text ⟨25, (size.height : Int) - 51 - extent * row / (count - 1)⟩ label

end Svg

/-- The SVG document of a chart. -/
def Chart.toSvg (c : Chart) : String :=
  let width : Int := c.size.width
  let height : Int := c.size.height
  s!"<svg width=\"{width}\" height=\"{height}\" viewBox=\"0 0 {width} {height}\" " ++
    "xmlns=\"http://www.w3.org/2000/svg\">\n" ++
    s!"<rect x=\"0\" y=\"0\" width=\"{width}\" height=\"{height}\" fill=\"#FFFFFF\"/>\n" ++
    (if c.title.isEmpty then "" else Svg.text ⟨width / 2, 15⟩ c.title) ++
    Svg.text ⟨width / 2, height - 15⟩ c.xDescription ++
    Svg.text ⟨15, height / 2⟩ c.yDescription ++
    String.join
      (c.yTicks.zipIdx.map fun (label, row) => Svg.tick c.size c.yTicks.length row label) ++
    String.join (c.series.map Svg.series) ++
    String.join (c.series.zipIdx.map fun (s, row) => Svg.legendEntry row s) ++
    "</svg>\n"

/-- The bytes of a chart's file. -/
def Chart.toBytes (c : Chart) : List UInt8 := Text.encode c.toSvg.toList

end DramTiming
