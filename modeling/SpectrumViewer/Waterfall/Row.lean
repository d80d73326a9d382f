import SpectrumViewer.Spectrum.Magnitude
import SpectrumViewer.Waterfall.Colour

set_option autoImplicit false

/-!
One row of the waterfall: a frame stretched or squeezed to the row's width, scaled by its loudest
bin and coloured.
-/

namespace SpectrumViewer

/-- The curve from scaled magnitudes to intensities. The square root lifts quiet bins. -/
inductive Intensity where
  | linear
  | squareRoot
  deriving DecidableEq, Repr

def Intensity.apply : Intensity → Binary32 → Binary32
  | .linear, x => x
  | .squareRoot, x => (x.max 0).sqrt

namespace Row

/-- The bin position that a column of a row falls on: the first column on the first bin, the last
one on the last. -/
def position (column width bins : Nat) : Binary32 :=
  .ofNat column * .ofNat (bins - 1) / .ofNat (width - 1)

/-- The magnitude between bins, read off the line from the bin below a position to the next. A
single bin, and a row of one column, show the first bin. -/
def resample (bins : Array Binary32) (column width : Nat) : Binary32 :=
  if h : bins.size = 0 then 0
  else if bins.size = 1 ∨ width ≤ 1 then bins[0]
  else
    let last := bins.size - 1
    let place := position column width bins.size
    let lower := place.floorNat last
    let start := bins[min lower last]
    let finish := bins[min (lower + 1) last]
    start + (finish - start) * (place - .ofNat lower)

/-- The intensity that a column is coloured by. -/
def intensityAt (curve : Intensity) (bins : Array Binary32) (scale : Binary32)
    (column width : Nat) : Binary32 :=
  curve.apply (resample bins column width / scale)

def colours (curve : Intensity) (values : List Binary32) (width : Nat) : List Colour :=
  let bins := values.toArray
  let scale := Spectrum.scaleOf (Spectrum.loudest values)
  (List.range width).map fun column => Ramp.colour (intensityAt curve bins scale column width)

@[simp] theorem length_colours (curve : Intensity) (values : List Binary32) (width : Nat) :
    (colours curve values width).length = width := by
  simp [colours]

end Row

end SpectrumViewer
