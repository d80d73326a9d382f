import SpectrumViewer.Number.Binary32

set_option autoImplicit false

/-!
Colours, and the ramp from black over blue, cyan, green, yellow and red to white that shows
intensities.
-/

namespace SpectrumViewer

/-- An opaque colour. -/
structure Colour where
  red : UInt8
  green : UInt8
  blue : UInt8
  deriving DecidableEq, Repr

namespace Colour

def black : Colour := ⟨0, 0, 0⟩
def white : Colour := ⟨255, 255, 255⟩

end Colour

/-- A place on the ramp and the channels of the colour reached there. -/
structure RampStop where
  position : Binary32
  red : Binary32
  green : Binary32
  blue : Binary32
  deriving DecidableEq, Repr

namespace Ramp

def stops : List RampStop :=
  [⟨0, 0, 0, 0⟩,
   ⟨.ofRatio 2 10, 0, 0, 255⟩,
   ⟨.ofRatio 4 10, 0, 255, 255⟩,
   ⟨.ofRatio 6 10, 0, 255, 0⟩,
   ⟨.ofRatio 8 10, 255, 255, 0⟩,
   ⟨.ofRatio 95 100, 255, 0, 0⟩,
   ⟨1, 255, 255, 255⟩]

/-- A channel part of the way from one stop to the next. -/
def channel (start finish part : Binary32) : UInt8 := (start + (finish - start) * part).roundByte

def blend (start finish : RampStop) (t : Binary32) : Colour :=
  let part := (t - start.position) / (finish.position - start.position)
  ⟨channel start.red finish.red part, channel start.green finish.green part,
    channel start.blue finish.blue part⟩

/-- The colour at `t` on the first segment that ends above `t` or at the end of the ramp. -/
def colourOn (t : Binary32) : List RampStop → Colour
  | start :: finish :: rest =>
    if t < finish.position ∨ 1 ≤ finish.position then blend start finish t
    else colourOn t (finish :: rest)
  | _ => .white

/-- The colour of an intensity. Intensities outside `[0, 1]` count as the nearer end, and what is
not a number as zero. -/
def colour (intensity : Binary32) : Colour :=
  colourOn (if intensity.isNaN then 0 else intensity.clamp 0 1) stops

end Ramp

end SpectrumViewer
