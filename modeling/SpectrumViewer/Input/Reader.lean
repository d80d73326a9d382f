import SpectrumViewer.Input.Demo
import SpectrumViewer.Input.Pump
import SpectrumViewer.Input.Source

set_option autoImplicit false

/-!
The reader: a receiver that works on an opened source until the source ends or a stop is requested.
-/

namespace SpectrumViewer

/-- A number of thousandths without zeros at its end, after a point unless there are none. -/
def thousandths (n : Nat) : String :=
  if n = 0 then ""
  else
    let ds := Nat.toDigits 10 n
    let padded := List.replicate (3 - ds.length) '0' ++ ds
    String.ofList ('.' :: Text.dropEnd (· = '0') padded)

/-- A time in milliseconds, in seconds where it is a second or more. -/
def intervalText (milliseconds : Nat) : String :=
  if milliseconds = 0 then "0ns"
  else if milliseconds < 1000 then s!"{milliseconds}ms"
  else
    let part := thousandths (milliseconds % 1000)
    s!"{milliseconds / 1000}{part}s"

namespace Receiver

/-- Replays what reading a file meets. A failed read ends the replay. -/
def replay (r : Receiver) (now : String) (script : List ReadEvent) (stopping : Bool) :
    Logged Receiver := do
  let halt ← r.pump now script stopping
  match halt.result with
  | .ok () => return halt.receiver
  | .error e =>
    let reason := e.message
    Logged.log .error .input s!"Replay stopped: {reason}"
    return halt.receiver

/-- Runs the demo for some frames, unless a stop was requested before. -/
def runDemo? (r : Receiver) (now : String) (interval : UInt64) (frames : Nat) (stopping : Bool)
    (elementary : Elementary) : Option (Logged Receiver) := do
  let demo := Demo.new r.decoder.binCount r.decoder.framing
  let received ← receiveDemo? elementary r now demo (if stopping then 0 else frames)
  let pace := intervalText interval.toNat
  return do
    Logged.log .info .input s!"Demo signal running, one frame every {pace}"
    received

/-- Works on a source to its end, or for a number of frames of the demo. Nothing comes of it when
the demo has no frame. -/
def work? (r : Receiver) (now elapsed : String) (source : Opened) (frames : Nat)
    (stopping : Bool) (elementary : Elementary := .series) : Option (Logged Receiver) := do
  let worked ← match source with
    | .replay script => some (r.replay now script stopping)
    | .demo interval => r.runDemo? now interval frames stopping elementary
  return do
    let r ← worked
    Logged.log .info .input
      (s!"Reader thread finished after {elapsed}s: {r.tally.accepted} frames accepted, " ++
        s!"{r.tally.rejected} rejected")
    return r

end Receiver

end SpectrumViewer
