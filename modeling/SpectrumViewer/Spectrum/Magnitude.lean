import SpectrumViewer.Number.FixedPlaces

set_option autoImplicit false

/-!
Magnitudes of a spectrum: the loudest one, the scale they are drawn to, and the frequencies of
their bins.
-/

namespace SpectrumViewer

namespace Spectrum

/-- The largest magnitude, zero if there is none above it. -/
def loudest (values : List Binary32) : Binary32 := values.foldl Binary32.max 0

/-- What magnitudes are divided by: their largest, or one in a silent spectrum. -/
def scaleOf (loudest : Binary32) : Binary32 := if 0 < loudest then loudest else 1

/-- The first bin with a magnitude above all before it, zero if there is none above the least
finite number. -/
def peakBin (values : List Binary32) : Nat :=
  let least : Binary32 := .ofCode true (BinaryFormat.single.infinityCode - 1)
  (values.zipIdx.foldl (fun best (v, i) => if best.2 < v then (i, v) else best) (0, least)).1

def binFrequency (bin : Nat) (sampleRate : Binary32) (fftSize : Nat) : Binary32 :=
  .ofNat bin * sampleRate / .ofNat fftSize

/-- Half of the sample rate, the frequency at the upper end of a spectrum. -/
def nyquist (sampleRate : Binary32) : Binary32 := sampleRate / 2

def binWidth (sampleRate : Binary32) (fftSize : Nat) : Binary32 := sampleRate / .ofNat fftSize

end Spectrum

end SpectrumViewer
