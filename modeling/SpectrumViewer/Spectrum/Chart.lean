import SpectrumViewer.Spectrum.Label
import SpectrumViewer.Spectrum.Magnitude

set_option autoImplicit false

/-!
The chart of magnitude against frequency as a picture laid out in an area of the screen. The same
frame and area always give the same picture.
-/

namespace SpectrumViewer

/-- A rectangle of the screen, in pixels from its upper left corner. -/
structure Area where
  left : Binary32
  top : Binary32
  right : Binary32
  bottom : Binary32
  deriving DecidableEq, Repr

structure Point where
  x : Binary32
  y : Binary32
  deriving DecidableEq, Repr

/-- A place on an axis and its label. -/
structure Tick where
  position : Binary32
  label : String
  deriving DecidableEq, Repr

structure Chart where
  loudest : Binary32
  points : List Point
  xTicks : List Tick
  yTicks : List Tick
  info : List String
  deriving DecidableEq, Repr

namespace Chart

/-- The place of `value` in `[first, last]` carried over to `[start, finish]`. -/
def mapRange (value first last start finish : Binary32) : Binary32 :=
  start + (value - first) * (finish - start) / (last - first)

/-- The horizontal place of a bin. A single bin stands at the left edge. -/
def binX (area : Area) (bins bin : Nat) : Binary32 :=
  if bins ≤ 1 then area.left
  else mapRange (.ofNat bin) 0 (.ofNat (bins - 1)) area.left area.right

def magnitudeY (area : Area) (scale value : Binary32) : Binary32 :=
  mapRange value 0 scale area.bottom area.top

/-- One point for each bin. -/
def trace (area : Area) (scale : Binary32) (values : List Binary32) : List Point :=
  values.zipIdx.map fun (value, bin) =>
    ⟨binX area values.length bin, magnitudeY area scale value⟩

/-- Steps between the first and the last tick of the frequency axis. -/
def xSteps : Nat := 4

/-- Steps between the first and the last tick of the magnitude axis. -/
def ySteps : Nat := 5

/-- Ticks at equal parts of the band from zero to the highest frequency. -/
def frequencyTicks (left right sampleRate : Binary32) : List Tick :=
  (List.range (xSteps + 1)).map fun i =>
    let part : Binary32 := .ofNat i / .ofNat xSteps
    ⟨left + (right - left) * part, Label.frequency (Spectrum.nyquist sampleRate * part)⟩

/-- The magnitude at a tick. -/
def tickValue (scale : Binary32) (i : Nat) : Binary32 := scale * .ofNat i / .ofNat ySteps

def tickY (area : Area) (i : Nat) : Binary32 :=
  area.bottom - .ofNat i * (area.bottom - area.top) / .ofNat ySteps

/-- Ticks at equal parts of the scale. -/
def magnitudeTicks (area : Area) (scale : Binary32) : List Tick :=
  (List.range (ySteps + 1)).map fun i =>
    ⟨tickY area i, Label.magnitude (tickValue scale i) scale⟩

def infoLines (values : List Binary32) (sampleRate : Binary32) (fftSize : Nat) : List String :=
  let width := (Spectrum.binWidth sampleRate fftSize).fixed 2
  let loudest := (Spectrum.loudest values).fixed 4
  let peak :=
    Label.frequency (Spectrum.binFrequency (Spectrum.peakBin values) sampleRate fftSize)
  [s!"FFT Size: {fftSize}", s!"Freq Resolution: {width} Hz/bin", s!"Max Magnitude: {loudest}",
    s!"Peak: {peak}"]

def layout (values : List Binary32) (area : Area) (sampleRate : Binary32) (fftSize : Nat) :
    Chart :=
  let loudest := Spectrum.loudest values
  let scale := Spectrum.scaleOf loudest
  { loudest
    points := trace area scale values
    xTicks := frequencyTicks area.left area.right sampleRate
    yTicks := magnitudeTicks area scale
    info := infoLines values sampleRate fftSize }

end Chart

end SpectrumViewer
