import SpectrumViewer.Display.Picture
import SpectrumViewer.Display.Status
import SpectrumViewer.Display.TextWidth
import SpectrumViewer.Frame.Mailbox

set_option autoImplicit false

/-!
The display. At each tick it takes the unread frame, if there is one, moves it into the waterfall
and paints. The waterfall is sent to the screen only when it has changed since it was last sent.
-/

namespace SpectrumViewer

/-- The display between two ticks: `texture` is the waterfall as the screen has it, and `stale`
says that it may no longer be what the waterfall is. -/
structure Viewer where
  settings : Settings
  label : String
  current : Option Frame
  waterfall : Waterfall
  texture : Option (List Colour)
  stale : Bool
  deriving DecidableEq, Repr

namespace Viewer

def edgeName : NewestEdge → String
  | .top => "Top"
  | .bottom => "Bottom"

def curveName : Intensity → String
  | .linear => "Linear"
  | .squareRoot => "Sqrt"

/-- A display before its first frame, if there can be a waterfall of the size that is set. -/
def new? (settings : Settings) (label : String) : Option (Logged Viewer) :=
  (Waterfall.new? settings.waterfallColumns settings.waterfallDepth.toNat settings.newestAt
    settings.intensity).map fun waterfall => do
      let edge := edgeName settings.newestAt
      let curve := curveName settings.intensity
      Logged.log .info .display
        s!"Waterfall {waterfall.width}x{waterfall.height} (newest at {edge}, {curve} intensity)"
      return ⟨settings, label, none, waterfall, none, true⟩

def receive (v : Viewer) (unread : Option Frame) : Logged Viewer :=
  match unread with
  | none => return v
  | some frame => do
    let waterfall ← v.waterfall.push frame.values
    Logged.log .debug .display s!"Displaying frame #{frame.sequence}"
    return { v with current := some frame, waterfall, stale := true }

/-- Empties the waterfall. The current frame stays. -/
def clear (v : Viewer) : Logged Viewer := do
  Logged.log .info .display "Waterfall cleared"
  return { v with waterfall := v.waterfall.reset, stale := true }

/-- Whether the waterfall has to be sent before it is painted. -/
def needsUpload (v : Viewer) : Bool := v.stale || v.texture.isNone

def upload (v : Viewer) : Upload := ⟨v.waterfall.width, v.waterfall.height, v.waterfall.rows⟩

/-- Paints the plots of a frame. Afterwards the screen has the waterfall as it is. -/
def paint (v : Viewer) (frame : Frame) (screen : Screen) (sight : Sight) : Plots × Viewer :=
  let plots (upload : Option Upload) : Plots :=
    .ofFrame v.settings v.waterfall.newest frame.values screen sight upload
  if v.needsUpload then
    (plots (some v.upload), { v with texture := some v.waterfall.pixels, stale := false })
  else (plots none, v)

def waitingNote : Caption := ⟨"Waiting for FFT data...", 20, Plots.textColour⟩

def clearButton : String := "Clear waterfall"

/-- The picture above a status line, with as much of that as is in sight. -/
def picture (screen : Screen) (sight : Sight) (status : String) (body : Caption ⊕ Plots) :
    Picture :=
  ⟨if sight.line screen then some status else none,
   if sight.button screen status then some clearButton else none, body⟩

/-- One tick on a screen, with the counts of the receiver. `clicked` says that the button was
clicked. -/
def tick (v : Viewer) (mailbox : Mailbox) (accepted rejected : Nat) (clicked : Bool)
    (screen : Screen) (sight : Sight := .measured) : Logged (Picture × Viewer × Mailbox) := do
  let v ← v.receive mailbox.take.1
  let status := Status.line v.label accepted rejected (v.current.map Frame.receivedAt)
  let v ← if clicked then v.clear else pure v
  match v.current with
  | none => return (picture screen sight status (.inl waitingNote), v, mailbox.take.2)
  | some frame =>
    let (plots, v) := v.paint frame screen sight
    return (picture screen sight status (.inr plots), v, mailbox.take.2)

end Viewer

end SpectrumViewer
