import SpectrumViewer.Frame.Basic
import SpectrumViewer.Frame.Payload
import SpectrumViewer.Spectrum.Magnitude
import SpectrumViewer.Log

set_option autoImplicit false

/-!
Frames from lines. The contents of lines are collected; an opening line throws away what was
collected before it, and a closing line reads the collected payload and starts afresh, whether
it is a frame or not. Published frames are numbered without gaps.
-/

namespace SpectrumViewer

/-- What a line means to the decoder. -/
inductive LineKind where
  | opening
  | closing
  | content (text : String)
  deriving DecidableEq, Repr

/-- Blanks around a line do not matter. A line equal to both marks opens a frame. The lead is
taken from the front of a content line once, if it is there. -/
def Framing.classify (framing : Framing) (line : String) : LineKind :=
  let cs := Text.trimmed line.toList
  if cs = framing.opening.toList then .opening
  else if cs = framing.closing.toList then .closing
  else
    let lead := (framing.lead.getD "").toList
    .content (String.ofList (if lead.isPrefixOf cs then cs.drop lead.length else cs))

structure Decoder where
  binCount : Nat
  framing : Framing
  pending : String
  published : Nat
  deriving DecidableEq, Repr

namespace Decoder

def new (binCount : Nat) (framing : Framing) : Decoder := ⟨binCount, framing, "", 0⟩

/-- The octets of payload that wait for a closing line. -/
def pendingBytes (d : Decoder) : Nat := d.pending.utf8ByteSize

/-- One line, without its line end, that arrives at the time `now`. The result is a frame if the
line completed one. -/
def feed (d : Decoder) (now line : String) :
    Logged (Except PayloadError (Option Frame) × Decoder) :=
  match d.framing.classify line with
  | .opening => do
    if d.pendingBytes ≠ 0 then
      Logged.log .debug .decoder s!"Start sentinel discarded {d.pendingBytes} pending bytes"
    return (.ok none, { d with pending := "" })
  | .closing =>
    match Payload.parse d.pending d.binCount with
    | .ok values => do
      let loudest := (Spectrum.loudest values).fixed 4
      Logged.log .debug .decoder
        s!"Frame #{d.published} complete: {values.length} values, max {loudest}"
      return (.ok (some ⟨d.published, values, now⟩),
        { d with pending := "", published := d.published + 1 })
    | .error e => do
      let reason := e.message
      Logged.log .warn .decoder s!"Dropping frame: {reason}"
      return (.error e, { d with pending := "" })
  | .content text => return (.ok none, { d with pending := d.pending ++ text })

end Decoder

end SpectrumViewer
