import SpectrumViewer.Frame.Mailbox

set_option autoImplicit false

/-!
A publisher and a taker at one mailbox, each at its own speed. In one turn a party does one step of
its call, or starts its next call; the turns may come in any order.
-/

namespace SpectrumViewer

/-- Who has the turn. -/
inductive Party where
  | publisher
  | taker
  deriving DecidableEq, Repr

/-- What a turn came to. A turn of the publisher within a publication says which frame it removed
from the mailbox, if any. -/
inductive Event where
  | idle
  | begun (frame : Frame)
  | tried (removed : Option Frame)
  | published (frame : Frame) (removed : Nat)
  | asked
  | received (frame : Option Frame)
  | returned (latest : Option Frame)
  deriving DecidableEq, Repr

/-- The mailbox, the frames that the publisher has not begun to publish, and the calls under way. -/
structure Exchange where
  mailbox : Mailbox
  upcoming : List Frame
  publication : Option Publication
  pickup : Option Pickup
  deriving DecidableEq, Repr

namespace Exchange

def start (frames : List Frame) : Exchange := ⟨.empty, frames, none, none⟩

/-- The frame that a party has removed if the mailbox was `before` and is `after`. -/
def removed (before after : Mailbox) : Option Frame :=
  match after.unread with
  | none => before.unread
  | some _ => none

def publisherStep (e : Exchange) : Event × Exchange :=
  match e.publication with
  | none =>
    match e.upcoming with
    | [] => (.idle, e)
    | frame :: upcoming =>
      (.begun frame, { e with upcoming, publication := some (.offering frame 0) })
  | some publication =>
    match (publication.step e.mailbox).value with
    | (.inl count, mailbox) =>
      (.published publication.frame count, { e with mailbox, publication := none })
    | (.inr next, mailbox) =>
      (.tried (removed e.mailbox mailbox), { e with mailbox, publication := some next })

def takerStep (e : Exchange) : Event × Exchange :=
  match e.pickup with
  | none => (.asked, { e with pickup := some ⟨none⟩ })
  | some pickup =>
    match pickup.step e.mailbox with
    | (.inl latest, mailbox) => (.returned latest, { e with mailbox, pickup := none })
    | (.inr next, mailbox) =>
      (.received (removed e.mailbox mailbox), { e with mailbox, pickup := some next })

def step (e : Exchange) : Party → Event × Exchange
  | .publisher => e.publisherStep
  | .taker => e.takerStep

/-- The events of turns that the parties have in the order of `schedule`, with the exchange after
them. -/
def run (e : Exchange) (schedule : List Party) : List Event × Exchange :=
  schedule.foldl (fun (events, e) party =>
    let (event, e) := e.step party
    (events ++ [event], e)) ([], e)

end Exchange

end SpectrumViewer
