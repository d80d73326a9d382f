import SpectrumViewer.Frame.Basic
import SpectrumViewer.Log

set_option autoImplicit false

/-!
The single place between receiver and display. It holds at most one unread frame; a frame that is
published while another is unread takes its place, so the display always finds the newest.

The mailbox itself can only be offered a frame or have its frame removed. Publishing and taking
repeat these steps until one of them ends the call, since between two steps the other party may
have its turn.
-/

namespace SpectrumViewer

structure Mailbox where
  unread : Option Frame
  deriving DecidableEq, Repr

/-- A publication under way, with the number of unread frames that it has removed. -/
inductive Publication where
  | offering (frame : Frame) (removed : Nat)
  | evicting (frame : Frame) (removed : Nat)
  deriving DecidableEq, Repr

/-- A pickup under way, with the frame that it holds. -/
structure Pickup where
  latest : Option Frame
  deriving DecidableEq, Repr

namespace Mailbox

def empty : Mailbox := ⟨none⟩

/-- The mailbox with a frame put into it, unless a frame is there. -/
def offer? (m : Mailbox) (frame : Frame) : Option Mailbox :=
  match m.unread with
  | none => some ⟨some frame⟩
  | some _ => none

def remove (m : Mailbox) : Option Frame × Mailbox := (m.unread, empty)

end Mailbox

namespace Publication

def frame : Publication → Frame
  | .offering frame _ => frame
  | .evicting frame _ => frame

/-- One step: the number of frames removed if it is the last step, else what is to be done next. -/
def step (p : Publication) (m : Mailbox) : Logged ((Nat ⊕ Publication) × Mailbox) :=
  match p with
  | .offering frame removed =>
    match m.offer? frame with
    | some m => return (.inl removed, m)
    | none => return (.inr (.evicting frame removed), m)
  | .evicting frame removed =>
    match m.remove with
    | (none, m) => return (.inr (.offering frame removed), m)
    | (some stale, m) => do
      Logged.log .debug .mailbox
        s!"Replacing unread frame #{stale.sequence} with #{frame.sequence}"
      return (.inr (.offering frame (removed + 1)), m)

/-- How many steps are still to be done before the last one, if nobody else has a turn. -/
def ahead (p : Publication) (m : Mailbox) : Nat :=
  match p, m.unread with
  | .offering _ _, none => 0
  | .evicting _ _, _ => 1
  | .offering _ _, some _ => 2

theorem ahead_step {p next : Publication} {m after : Mailbox} {records : List Log.Record}
    (h : p.step m = ⟨(.inr next, after), records⟩) : next.ahead after < p.ahead m := by
  rcases m with ⟨_ | stale⟩
  · cases p with
    | offering frame removed => cases h
    | evicting frame removed =>
      cases h
      exact Nat.zero_lt_one
  · cases p with
    | offering frame removed =>
      cases h
      exact Nat.one_lt_two
    | evicting frame removed =>
      cases h
      exact Nat.zero_lt_one

/-- All the steps that are left, with nobody else having a turn. -/
def finish (p : Publication) (m : Mailbox) : Logged (Nat × Mailbox) :=
  match _h : p.step m with
  | ⟨(.inl removed, after), records⟩ => ⟨(removed, after), records⟩
  | ⟨(.inr next, after), records⟩ =>
    ⟨(next.finish after).value, records ++ (next.finish after).records⟩
termination_by p.ahead m
decreasing_by exact ahead_step _h

theorem finish_of_last {p : Publication} {m after : Mailbox} {removed : Nat}
    {records : List Log.Record} (last : p.step m = ⟨(.inl removed, after), records⟩) :
    p.finish m = ⟨(removed, after), records⟩ := by
  rw [finish]
  split
  · next h =>
    cases h.symm.trans last
    rfl
  · next h => cases h.symm.trans last

theorem finish_of_next {p next : Publication} {m after : Mailbox} {records : List Log.Record}
    (more : p.step m = ⟨(.inr next, after), records⟩) :
    p.finish m = ⟨(next.finish after).value, records ++ (next.finish after).records⟩ := by
  rw [finish]
  split
  · next h => cases h.symm.trans more
  · next h =>
    cases h.symm.trans more
    rfl

end Publication

namespace Pickup

/-- One step: the frame that the call returns if it is the last step, else what is held now. -/
def step (p : Pickup) (m : Mailbox) : (Option Frame ⊕ Pickup) × Mailbox :=
  match m.remove with
  | (none, m) => (.inl p.latest, m)
  | (some frame, m) => (.inr ⟨some frame⟩, m)

theorem unread_step {p next : Pickup} {m after : Mailbox} (h : p.step m = (.inr next, after)) :
    after.unread.toList.length < m.unread.toList.length := by
  rcases m with ⟨_ | frame⟩
  · cases h
  · cases h
    exact Nat.zero_lt_one

def finish (p : Pickup) (m : Mailbox) : Option Frame × Mailbox :=
  match _h : p.step m with
  | (.inl latest, after) => (latest, after)
  | (.inr next, after) => next.finish after
termination_by m.unread.toList.length
decreasing_by exact unread_step _h

theorem finish_empty (p : Pickup) : p.finish ⟨none⟩ = (p.latest, ⟨none⟩) := by
  rw [finish]
  rfl

theorem finish_unread (p : Pickup) (frame : Frame) :
    p.finish ⟨some frame⟩ = (some frame, ⟨none⟩) := by
  rw [finish]
  exact finish_empty ⟨some frame⟩

end Pickup

namespace Mailbox

/-- Publishes a frame; the result is the number of unread frames it replaced. -/
def publish (m : Mailbox) (frame : Frame) : Logged (Nat × Mailbox) :=
  (Publication.offering frame 0).finish m

def take (m : Mailbox) : Option Frame × Mailbox := (Pickup.mk none).finish m

theorem publish_empty (frame : Frame) :
    (⟨none⟩ : Mailbox).publish frame = return (0, ⟨some frame⟩) :=
  Publication.finish_of_last rfl

theorem publish_unread (stale frame : Frame) :
    (⟨some stale⟩ : Mailbox).publish frame = do
      Logged.log .debug .mailbox
        s!"Replacing unread frame #{stale.sequence} with #{frame.sequence}"
      return (1, ⟨some frame⟩) := by
  have refused : (Publication.offering frame 0).step ⟨some stale⟩ =
      ⟨(.inr (.evicting frame 0), ⟨some stale⟩), []⟩ := rfl
  have evicted : (Publication.evicting frame 0).step ⟨some stale⟩ =
      ⟨(.inr (.offering frame 1), ⟨none⟩), [⟨.debug, .mailbox,
        s!"Replacing unread frame #{stale.sequence} with #{frame.sequence}"⟩]⟩ := rfl
  have accepted : (Publication.offering frame 1).step ⟨none⟩ =
      ⟨(.inl 1, ⟨some frame⟩), []⟩ := rfl
  rw [publish, Publication.finish_of_next refused, Publication.finish_of_next evicted,
    Publication.finish_of_last accepted]
  rfl

@[simp] theorem unread_publish (m : Mailbox) (frame : Frame) :
    (m.publish frame).value.2.unread = some frame := by
  rcases m with ⟨_ | stale⟩
  · rw [publish_empty]
    rfl
  · rw [publish_unread]
    rfl

theorem take_eq (m : Mailbox) : m.take = (m.unread, empty) := by
  rcases m with ⟨_ | frame⟩
  · exact Pickup.finish_empty ⟨none⟩
  · exact Pickup.finish_unread ⟨none⟩ frame

@[simp] theorem take_fst (m : Mailbox) : m.take.1 = m.unread := by
  rw [take_eq]

end Mailbox

end SpectrumViewer
