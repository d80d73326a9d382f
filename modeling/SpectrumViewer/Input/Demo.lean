import SpectrumViewer.Input.Receiver
import SpectrumViewer.Number.Elementary
import SpectrumViewer.Number.Word

set_option autoImplicit false

/-!
A synthetic device: a tone that sweeps up and down the band with its second harmonic, over a
rippling floor. It speaks the same lines as a real one, its payload cut into lines of 64 values.
Its sine and exponential are those of the machine that it runs on.
-/

namespace SpectrumViewer

/-- The device and the number of its next frame. -/
structure Demo where
  binCount : Nat
  framing : Framing
  next : Nat
  deriving DecidableEq, Repr

namespace Demo

def new (binCount : Nat) (framing : Framing) : Demo := ⟨binCount, framing, 0⟩

/-- Frames of one sweep up and back. -/
def period : Nat := 240

/-- The place in the sweep, from zero at the lower end of the band to half a period at the upper
one. -/
def progress (index : Nat) : Nat :=
  let phase := index % period
  if phase < period / 2 then phase else period - phase

/-- The bin of the tone in a frame, unless its computation leaves 64 bits. -/
def peakBin? (demo : Demo) (index : Nat) : Option Nat :=
  if demo.binCount < 2 then some 0
  else (Word.product? (progress index) (demo.binCount - 1)).map (· / (period / 2))

def floorHeight : Binary32 := .ofRatio 2 100
def rippleDepth : Binary32 := .ofRatio 1 2
def rippleStep : Binary32 := .ofRatio 37 100
def rippleDrift : Binary32 := .ofRatio 1 10
def harmonicHeight : Binary32 := .ofRatio 4 10
def toneWidth : Binary32 := 3

/-- A bell curve of height one. -/
def bell (elementary : Elementary) (x center width : Binary32) : Binary32 :=
  let d := (x - center) / width
  elementary.exponential (-rippleDepth * d * d)

/-- The magnitude of a bin when the tone is at `peak` and the ripple has drifted by `drift`. -/
def magnitude (elementary : Elementary) (peak drift bin : Binary32) : Binary32 :=
  floorHeight * (1 + rippleDepth * elementary.sine (bin * rippleStep + drift))
    + bell elementary bin peak toneWidth
    + harmonicHeight * bell elementary bin (peak * 2) toneWidth

/-- Octets of a magnitude in memory. -/
def magnitudeBytes : Nat := 4

/-- Whether the magnitudes of a frame are no larger than a block of memory can be. -/
def fitsMemory (demo : Demo) : Bool :=
  decide (demo.binCount * magnitudeBytes ≤ Word.largestBlock)

/-- The magnitudes of a frame, if they can be computed and fit in memory. -/
def magnitudes? (demo : Demo) (index : Nat) (elementary : Elementary := .series) :
    Option (List Binary32) :=
  ((demo.peakBin? index).filter fun _ => demo.fitsMemory).map fun peak =>
    (List.range demo.binCount).map fun i =>
      magnitude elementary (.ofNat peak) (.ofNat index * rippleDrift) (.ofNat i)

/-- Values of one line. -/
def valuesPerLine : Nat := 64

/-- Values as texts with four decimals and commas between them. -/
def valuesText (values : List Binary32) : String :=
  String.intercalate "," (values.map (·.fixed 4))

/-- The lines of a payload: all but the last end in a comma. -/
def payloadLines (values : List Binary32) : List String :=
  if values.length ≤ valuesPerLine then
    if values = [] then [] else [valuesText values]
  else (valuesText (values.take valuesPerLine) ++ ",") ::
    payloadLines (values.drop valuesPerLine)
termination_by values.length
decreasing_by
  simp only [List.length_drop, valuesPerLine] at *
  omega

/-- The first line of a payload carries the lead. -/
def withLead (lead : Option String) : List String → List String
  | [] => []
  | line :: lines => (lead.getD "" ++ line) :: lines

/-- A frame as lines, marks included. -/
def frameLines (framing : Framing) (values : List Binary32) : List String :=
  framing.opening :: (withLead framing.lead (payloadLines values) ++ [framing.closing])

/-- The lines of the next frame, if its magnitudes can be had. -/
def nextLines? (demo : Demo) (elementary : Elementary := .series) :
    Option (Logged (List String × Demo)) :=
  (demo.magnitudes? demo.next elementary).map fun values => do
    let lines := frameLines demo.framing values
    Logged.log .debug .demo s!"Generated demo frame #{demo.next} ({lines.length} lines)"
    return (lines, { demo with next := demo.next + 1 })

end Demo

/-- Receives a number of frames of the device. -/
def Receiver.receiveDemo? (elementary : Elementary) (r : Receiver) (now : String) (demo : Demo) :
    (frames : Nat) → Option (Logged Receiver)
  | 0 => some (pure r)
  | frames + 1 =>
    match demo.nextLines? elementary with
    | none => none
    | some step =>
      let first : Logged (List Outcome × Receiver) :=
        step >>= fun (lines, _) => r.handleLines now lines
      (receiveDemo? elementary first.value.2 now step.value.2 frames).map (first >>= fun _ => ·)

end SpectrumViewer
