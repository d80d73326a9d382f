import SpectrumViewer.Number.Binary32

set_option autoImplicit false

/-!
Frames, and how a device marks them in its stream of lines.
-/

namespace SpectrumViewer

/-- The line that opens a frame, the line that closes it, and what may stand before a line's
payload. -/
structure Framing where
  opening : String
  closing : String
  lead : Option String
  deriving DecidableEq, Repr

namespace Framing

/-- The marks that the device uses unless told otherwise. -/
def device : Framing := ⟨"FFT_DATA_START", "FFT_DATA_END", some "CORR:"⟩

instance : Inhabited Framing := ⟨device⟩

end Framing

/-- One spectrum: its number in the order of publication, its magnitudes from the lowest
frequency on, and the time of day at which it arrived, as the status line shows it. -/
structure Frame where
  sequence : Nat
  values : List Binary32
  receivedAt : String
  deriving DecidableEq, Repr

end SpectrumViewer
