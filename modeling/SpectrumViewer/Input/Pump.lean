import SpectrumViewer.Input.ByteSource
import SpectrumViewer.Input.Receiver
import SpectrumViewer.Text.Utf8

set_option autoImplicit false

/-!
The pump carries lines from a source of octets to a receiver until the source ends or fails or a
stop is requested. One turn of the pump looks for the request and then reads once for a line. A
timeout interrupts a reading without losing the unfinished line. Each turn but the last takes
something from the source (`turn_size`), so the pump comes to a halt.
-/

namespace SpectrumViewer

/-- A read failed for good. -/
structure ReadError where
  reason : String
  deriving DecidableEq, Repr

def ReadError.message (e : ReadError) : String := s!"Failed to read input: {e.reason}"

namespace Pump

/-- The pump between two turns: what is left to read, the unfinished line, the receiver, and
whether a stop was requested. -/
structure State where
  source : ByteSource
  line : List UInt8
  receiver : Receiver
  stopping : Bool

/-- What is left when the pump has stopped. -/
structure Halt where
  result : Except ReadError Unit
  receiver : Receiver
  stopping : Bool

/-- The text of a line: its octets read as a whole, without line ends at its end. -/
def lineText (line : List UInt8) : String :=
  Text.dropLineEnd (String.ofList (Utf8.lossy line))

/-- Hands a line that arrives at the time `now` to the receiver. -/
def deliver (now : String) (receiver : Receiver) (line : List UInt8) : Logged Receiver :=
  Prod.snd <$> receiver.handleLine now (lineText line)

/-- The last line need not end in a line feed: a reading that finds the end at once hands it
on. -/
def finish (now : String) (s : State) (stopping : Bool) : Logged Halt := do
  let receiver ← if s.line = [] then pure s.receiver else deliver now s.receiver s.line
  Logged.log .info .input "Input reached end of stream"
  return ⟨.ok (), receiver, stopping⟩

/-- The pump stops at a request before it reads again. -/
def stop (s : State) : Logged Halt := do
  let dropped := s.receiver.decoder.pendingBytes
  Logged.log .debug .input
    s!"Reader stopped by shutdown flag ({dropped} bytes of an unfinished frame dropped)"
  return ⟨.ok (), s.receiver, true⟩

def turn (now : String) (s : State) : Logged (Halt ⊕ State) :=
  if s.stopping then .inl <$> stop s
  else
    let read := s.source.readLine s.line false
    match read.ending with
    | .failed reason => pure (.inl ⟨.error ⟨reason⟩, s.receiver, read.stopping⟩)
    | .timedOut => pure (.inr ⟨read.source, read.line, s.receiver, read.stopping⟩)
    | .lineFeed =>
      (fun receiver => .inr ⟨read.source, [], receiver, read.stopping⟩) <$>
        deliver now s.receiver read.line
    | .endOfInput =>
      if s.line.length < read.line.length then
        pure (.inr ⟨read.source, read.line, s.receiver, read.stopping⟩)
      else .inl <$> finish now s read.stopping

theorem turn_size {now : String} {s t : State} (h : (turn now s).value = .inr t) :
    t.source.size < s.source.size := by
  obtain ⟨total, grown, timedOut, lineFeed⟩ := s.source.readLine_size s.line false
  unfold turn at h
  split at h
  · simp at h
  · simp only at h
    split at h
    · simp at h
    · rename_i e
      have := timedOut e
      simp only [Logged.value_pure, Sum.inr.injEq] at h
      subst h
      simp only
      omega
    · rename_i e
      have := lineFeed e
      simp only [Logged.value_map, Sum.inr.injEq] at h
      subst h
      simp only
      omega
    · split at h
      · simp only [Logged.value_pure, Sum.inr.injEq] at h
        subst h
        simp only
        omega
      · simp at h

def run (now : String) (s : State) : Logged Halt :=
  match h : turn now s with
  | ⟨.inl halt, records⟩ => ⟨halt, records⟩
  | ⟨.inr next, records⟩ =>
    have := @turn_size now s next (by rw [h])
    let rest := run now next
    ⟨rest.value, records ++ rest.records⟩
termination_by s.source.size

end Pump

/-- Carries the lines of a source to the receiver, from the start of a line. -/
def Receiver.pump (receiver : Receiver) (now : String) (script : List ReadEvent)
    (stopping : Bool) : Logged Pump.Halt :=
  Pump.run now ⟨⟨[], script⟩, [], receiver, stopping⟩

end SpectrumViewer
