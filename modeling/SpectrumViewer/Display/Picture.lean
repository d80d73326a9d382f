import SpectrumViewer.Display.Screen
import SpectrumViewer.Settings.Basic
import SpectrumViewer.Spectrum.Chart

set_option autoImplicit false

/-!
What is painted of a frame: the chart above, the waterfall below, both as wide as the screen allows.
Where a text stands is up to the screen; its content, size and colour are not.
-/

namespace SpectrumViewer

/-- A text with its size and colour. -/
structure Caption where
  text : String
  size : Nat
  colour : Colour
  deriving DecidableEq, Repr

structure Stroke where
  width : Nat
  colour : Colour
  deriving DecidableEq, Repr

structure Segment where
  start : Point
  finish : Point
  stroke : Stroke
  deriving DecidableEq, Repr

/-- A waterfall as it is sent to the screen, always as a whole. -/
structure Upload where
  width : Nat
  height : Nat
  rows : List (List Colour)
  deriving DecidableEq, Repr

/-- The horizontal extent of a rectangle. On a narrow screen its right edge is left of the other. -/
structure Extent where
  left : Binary32
  right : Binary32
  deriving DecidableEq, Repr

def Extent.ordered (x : Extent) : Extent :=
  if x.right.less x.left then ⟨x.right, x.left⟩ else x

/-- The chart and the waterfall of a frame: the image of the waterfall fills its frame. -/
structure Plots where
  captions : List Caption
  segments : List Segment
  trace : List Point
  traceStroke : Stroke
  image : Extent
  frame : Extent
  frameColour : Colour
  upload : Option Upload
  deriving DecidableEq, Repr

/-- What is painted in one go: the status line and its button, where they are in sight, and above
them the plots, or a note that there is nothing to plot. -/
structure Picture where
  status : Option String
  button : Option String
  body : Caption ⊕ Plots
  deriving DecidableEq, Repr

namespace Plots

def textColour : Colour := .black
def gridColour : Colour := ⟨200, 200, 200⟩
def traceColour : Colour := ⟨0, 0, 255⟩

def marginLeft : Binary32 := 80
def marginRight : Binary32 := 50
def marginTop : Binary32 := 10
def plotHeight : Binary32 := 300

/-- The horizontal extent of both plots on a screen. -/
def extent (screen : Screen) : Extent :=
  ⟨Screen.inset + marginLeft, screen.right - marginRight⟩

def chartArea (screen : Screen) : Area :=
  let x := extent screen
  let top := Screen.inset + marginTop
  ⟨x.left, top, x.right, top + plotHeight⟩

def gridStroke : Stroke := ⟨1, gridColour⟩
def axisStroke : Stroke := ⟨2, textColour⟩

/-- A line across the chart at each tick of the magnitude axis. -/
def gridLines (area : Area) (chart : Chart) : List Segment :=
  chart.yTicks.map fun tick =>
    ⟨⟨area.left, tick.position⟩, ⟨area.right, tick.position⟩, gridStroke⟩

def axes (area : Area) : List Segment :=
  [⟨⟨area.left, area.bottom⟩, ⟨area.right, area.bottom⟩, axisStroke⟩,
   ⟨⟨area.left, area.top⟩, ⟨area.left, area.bottom⟩, axisStroke⟩]

def tickCaptions (size : Nat) (ticks : List Tick) : List Caption :=
  ticks.map fun tick => ⟨tick.label, size, textColour⟩

/-- The texts of the chart, with a note on a silent frame. -/
def chartCaptions (chart : Chart) : List Caption :=
  tickCaptions 12 chart.yTicks ++ tickCaptions 14 chart.xTicks ++
    (if chart.loudest.same 0 then [⟨"Silent frame (all bins zero)", 12, gridColour⟩] else []) ++
    chart.info.map fun text => ⟨text, 12, textColour⟩

def timeNote : NewestEdge → String
  | .top => "Time (newest at top)"
  | .bottom => "Time (newest at bottom)"

def waterfallCaptions (newest : NewestEdge) (chart : Chart) (titled : Bool) : List Caption :=
  (if titled then [⟨"Waterfall Spectrogram", 14, textColour⟩] else []) ++
    tickCaptions 14 chart.xTicks ++ [⟨timeNote newest, 11, textColour⟩]

/-- The plots of a frame. Both have the same frequency axis. -/
def ofFrame (settings : Settings) (newest : NewestEdge) (values : List Binary32)
    (screen : Screen) (sight : Sight) (upload : Option Upload) : Plots :=
  let area := chartArea screen
  let chart := Chart.layout values area settings.sampleRate settings.fftSize.toNat
  { captions := chartCaptions chart ++ waterfallCaptions newest chart (sight.title screen)
    segments := gridLines area chart ++ axes area
    trace := chart.points
    traceStroke := ⟨1, traceColour⟩
    image := (extent screen).ordered
    frame := extent screen
    frameColour := textColour
    upload }

end Plots

end SpectrumViewer
