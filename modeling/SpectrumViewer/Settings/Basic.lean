import SpectrumViewer.Frame.Basic
import SpectrumViewer.Log
import SpectrumViewer.Number.Shortest
import SpectrumViewer.Text.Blank
import SpectrumViewer.Waterfall.Grid

set_option autoImplicit false

/-!
What the viewer is told at startup, and which settings it works with. `fault?` names the first
thing that is wrong with settings; `check` also warns of what is merely useless.
-/

namespace SpectrumViewer

structure Settings where
  sampleRate : Binary32
  fftSize : UInt64
  baudRate : UInt32
  framing : Framing
  /-- Rows of the waterfall. -/
  waterfallDepth : UInt64
  /-- Columns of the waterfall; without it, one for each bin. -/
  waterfallWidth : Option UInt64
  newestAt : NewestEdge
  intensity : Intensity
  windowWidth : Binary32
  windowHeight : Binary32
  /-- Milliseconds between two pictures. -/
  repaintInterval : UInt64
  deriving DecidableEq, Repr

namespace Settings

def standard : Settings where
  sampleRate := 44100
  fftSize := 1024
  baudRate := 115200
  framing := .device
  waterfallDepth := 300
  waterfallWidth := none
  newestAt := .top
  intensity := .linear
  windowWidth := 1200
  windowHeight := 950
  repaintInterval := 16

instance : Inhabited Settings := ⟨standard⟩

/-- Magnitudes in a frame: half as many as samples in a transform. -/
def binCount (s : Settings) : Nat := s.fftSize.toNat / 2

def waterfallColumns (s : Settings) : Nat :=
  match s.waterfallWidth with
  | some width => width.toNat
  | none => s.binCount

/-- What can be wrong with settings. -/
inductive Fault where
  | fftSize (size : UInt64)
  | sampleRate (rate : Binary32)
  | baudRate
  | waterfallSize (columns depth : Nat)
  | blankMark
  | equalMarks (mark : String)
  deriving DecidableEq, Repr

def Fault.message : Fault → String
  | .fftSize size => s!"fft_size must be an even number >= 2, got {size.toNat}"
  | .sampleRate rate => "sample_rate must be positive, got " ++ rate.text
  | .baudRate => "baud_rate must be non-zero"
  | .waterfallSize columns depth => s!"waterfall must be at least 1x1, got {columns}x{depth}"
  | .blankMark => "sentinels must not be empty"
  | .equalMarks mark => "start and end sentinels must differ (both are '" ++ mark ++ "')"

def isBlankText (s : String) : Bool := s.toList.all Text.isBlank

def fault? (s : Settings) : Option Fault :=
  if s.fftSize.toNat < 2 ∨ s.fftSize.toNat % 2 ≠ 0 then some (.fftSize s.fftSize)
  else if ¬ 0 < s.sampleRate then some (.sampleRate s.sampleRate)
  else if s.baudRate = 0 then some .baudRate
  else if s.waterfallDepth = 0 ∨ s.waterfallColumns = 0 then
    some (.waterfallSize s.waterfallColumns s.waterfallDepth.toNat)
  else if isBlankText s.framing.opening ∨ isBlankText s.framing.closing then some .blankMark
  else if s.framing.opening = s.framing.closing then some (.equalMarks s.framing.opening)
  else none

/-- Settings that the viewer works with. -/
def Accepted (s : Settings) : Prop := s.fault? = none

instance (s : Settings) : Decidable s.Accepted := inferInstanceAs (Decidable (_ = none))

theorem accepted_iff (s : Settings) :
    s.Accepted ↔
      (2 ≤ s.fftSize.toNat ∧ s.fftSize.toNat % 2 = 0) ∧ 0 < s.sampleRate ∧ s.baudRate ≠ 0 ∧
        (s.waterfallDepth ≠ 0 ∧ s.waterfallColumns ≠ 0) ∧
        (isBlankText s.framing.opening = false ∧ isBlankText s.framing.closing = false) ∧
        s.framing.opening ≠ s.framing.closing := by
  unfold Accepted fault?
  grind

theorem Accepted.binCount_pos {s : Settings} (h : s.Accepted) : 0 < s.binCount := by
  have size := (s.accepted_iff.mp h).1
  unfold binCount
  omega

theorem Accepted.waterfall_pos {s : Settings} (h : s.Accepted) :
    0 < s.waterfallColumns ∧ 0 < s.waterfallDepth.toNat := by
  obtain ⟨depth, columns⟩ := (s.accepted_iff.mp h).2.2.2.1
  have rows : s.waterfallDepth.toNat ≠ 0 := fun none => depth (UInt64.toNat_inj.mp none)
  exact ⟨Nat.pos_of_ne_zero columns, Nat.pos_of_ne_zero rows⟩

/-- Looks for a fault. An empty lead is none, but does nothing. -/
def check (s : Settings) : Logged (Except Fault Unit) :=
  match s.fault? with
  | some fault => return .error fault
  | none => do
    if s.framing.lead = some "" then
      Logged.log .warn .settings "Empty payload prefix configured; it has no effect."
    return .ok ()

theorem value_check (s : Settings) : s.check.value = .ok () ↔ s.Accepted := by
  unfold check Accepted
  split
  · simp_all
  · split <;> simp_all

end Settings

end SpectrumViewer
