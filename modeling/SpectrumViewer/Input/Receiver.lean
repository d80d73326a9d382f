import SpectrumViewer.Frame.Decoder
import SpectrumViewer.Frame.Mailbox

set_option autoImplicit false

/-!
The receiver feeds lines to a decoder, publishes the frames that come of them, and keeps count.
-/

namespace SpectrumViewer

/-- What a line came to. -/
inductive Outcome where
  | pending
  | published
  | rejected
  deriving DecidableEq, Repr

/-- How many lines were read, and how many frames were accepted and rejected. -/
structure Tally where
  lines : Nat
  accepted : Nat
  rejected : Nat
  deriving DecidableEq, Repr

structure Receiver where
  decoder : Decoder
  mailbox : Mailbox
  tally : Tally
  deriving DecidableEq, Repr

namespace Receiver

def new (binCount : Nat) (framing : Framing) : Receiver :=
  ⟨.new binCount framing, .empty, ⟨0, 0, 0⟩⟩

def handleLine (r : Receiver) (now line : String) : Logged (Outcome × Receiver) := do
  let (result, decoder) ← r.decoder.feed now line
  let tally := { r.tally with lines := r.tally.lines + 1 }
  match result with
  | .ok none => return (.pending, { r with decoder, tally })
  | .ok (some frame) =>
    let (replaced, mailbox) ← r.mailbox.publish frame
    if replaced ≠ 0 then
      Logged.log .debug .input s!"Display lagging, {replaced} unread frame(s) replaced"
    return (.published, ⟨decoder, mailbox, { tally with accepted := tally.accepted + 1 }⟩)
  | .error e =>
    let rejected := tally.rejected + 1
    let reason := e.message
    Logged.log .warn .input s!"Rejected frame ({rejected} so far): {reason}"
    return (.rejected, { r with decoder, tally := { tally with rejected } })

/-- Lines that arrive at the same time, with the outcome of each. -/
def handleLines (r : Receiver) (now : String) :
    List String → Logged (List Outcome × Receiver)
  | [] => return ([], r)
  | line :: lines => do
    let (outcome, r) ← r.handleLine now line
    let (outcomes, r) ← r.handleLines now lines
    return (outcome :: outcomes, r)

def take (r : Receiver) : Option Frame × Receiver :=
  (r.mailbox.take.1, { r with mailbox := r.mailbox.take.2 })

end Receiver

end SpectrumViewer
