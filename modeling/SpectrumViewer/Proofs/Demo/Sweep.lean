import Mathlib.Algebra.Order.Floor.Div
import SpectrumViewer.Proofs.Demo.Magnitude

set_option autoImplicit false

/-!
The sweep of the synthetic device. Its tone rises from the lowest bin to the highest one in half a
period and comes back in the other half (`peakBin?_triangle`). The bin is the whole part of a
product that grows by the band's width from one place in the sweep to the next, so it is never off
by more than one step.
-/

namespace SpectrumViewer

namespace Demo

/-- The bins of a tone that goes up and down a band in 240 frames, at most one step in each. -/
structure Triangle (bin : Nat → Nat) (binCount : Nat) : Prop where
  inside (i : Nat) : bin i < binCount
  periodic {i j : Nat} : i % 240 = j % 240 → bin i = bin j
  mirrored {p : Nat} : 0 < p → p < 240 → bin (240 - p) = bin p
  rising {p q : Nat} : p ≤ q → q ≤ 120 → bin p ≤ bin q
  falling {p q : Nat} : 120 ≤ p → p ≤ q → q < 240 → bin q ≤ bin p
  lowest : bin 0 = 0
  highest : bin 120 = binCount - 1
  steady (i : Nat) : bin (i + 1) ≤ bin i + (binCount - 1) ⌈/⌉ 120 ∧
    bin i ≤ bin (i + 1) + (binCount - 1) ⌈/⌉ 120

/-- The place in the sweep is the distance to the nearest frame at the lower end of the band. -/
theorem progress_eq (index : Nat) : progress index = min (index % 240) (240 - index % 240) := by
  show (if index % 240 < 120 then index % 240 else 240 - index % 240) = _
  split <;> omega

theorem progress_mirrored {p : Nat} (positive : 0 < p) (phase : p < 240) :
    progress (240 - p) = progress p := by
  rw [progress_eq, progress_eq]
  omega

theorem progress_of_le {p : Nat} (early : p ≤ 120) : progress p = p := by
  rw [progress_eq]
  omega

theorem progress_of_ge {p : Nat} (late : 120 ≤ p) (phase : p < 240) : progress p = 240 - p := by
  rw [progress_eq]
  omega

theorem progress_succ_le (index : Nat) :
    progress (index + 1) ≤ progress index + 1 ∧ progress index ≤ progress (index + 1) + 1 := by
  rw [progress_eq, progress_eq]
  omega

/-- The bin at a place in the sweep over a band that is `span` steps wide. -/
def binAt (span place : Nat) : Nat := place * span / 120

theorem binAt_mono (span : Nat) : Monotone (binAt span) := fun _ _ le =>
  Nat.div_le_div_right (Nat.mul_le_mul_right span le)

theorem binAt_succ_le (span place : Nat) :
    binAt span (place + 1) ≤ binAt span place + span ⌈/⌉ 120 := by
  have parts : 0 < 120 := by decide
  have covered : span ≤ 120 * (span ⌈/⌉ 120) := le_smul_ceilDiv parts
  calc binAt span (place + 1) = (place * span + span) / 120 := by rw [binAt, Nat.succ_mul]
    _ ≤ (place * span + 120 * (span ⌈/⌉ 120)) / 120 := Nat.div_le_div_right (by omega)
    _ = binAt span place + span ⌈/⌉ 120 := Nat.add_mul_div_left _ _ parts

theorem binAt_le_of_le_succ (span : Nat) {place next : Nat} (near : next ≤ place + 1) :
    binAt span next ≤ binAt span place + span ⌈/⌉ 120 :=
  (binAt_mono span near).trans (binAt_succ_le span place)

theorem triangle_binAt {binCount : Nat} (several : 2 ≤ binCount) :
    Triangle (fun index => binAt (binCount - 1) (progress index)) binCount := by
  have mono := binAt_mono (binCount - 1)
  have top : binAt (binCount - 1) 120 = binCount - 1 := Nat.mul_div_cancel_left _ (by decide)
  constructor
  · intro i
    have below := mono (progress_le i)
    rw [top] at below
    exact Nat.lt_of_le_pred (by omega) below
  · intro i j phase
    show binAt _ (progress i) = binAt _ (progress j)
    rw [progress_eq, progress_eq, phase]
  · intro p positive phase
    exact congrArg _ (progress_mirrored positive phase)
  · intro p q le early
    apply mono
    rw [progress_of_le early, progress_of_le (le.trans early)]
    exact le
  · intro p q late le phase
    apply mono
    rw [progress_of_ge late (le.trans_lt phase), progress_of_ge (late.trans le) phase]
    omega
  · show 0 * _ / 120 = 0
    rw [Nat.zero_mul]
  · exact top
  · intro i
    obtain ⟨up, down⟩ := progress_succ_le i
    exact ⟨binAt_le_of_le_succ _ up, binAt_le_of_le_succ _ down⟩

theorem peakBin?_eq {demo : Demo} (several : 2 ≤ demo.binCount)
    (span : 120 * (demo.binCount - 1) < 2 ^ 64) (index : Nat) :
    demo.peakBin? index = some (binAt (demo.binCount - 1) (progress index)) := by
  have word : progress index * (demo.binCount - 1) < 2 ^ 64 :=
    (Nat.mul_le_mul_right _ (progress_le index)).trans_lt span
  rw [peakBin?, if_neg (by omega), Word.product?_eq_some_of_lt word]
  rfl

/-- In a band of two bins or more, every frame has a bin of its tone, and over the frames these bins
are a triangle over the whole band. -/
theorem peakBin?_triangle {demo : Demo} (several : 2 ≤ demo.binCount)
    (span : 120 * (demo.binCount - 1) < 2 ^ 64) :
    ∃ bin : Nat → Nat, (∀ index, demo.peakBin? index = some (bin index)) ∧
      Triangle bin demo.binCount :=
  ⟨_, peakBin?_eq several span, triangle_binAt several⟩

/-- The widest band whose sweep is computed within words. -/
theorem peakBin?_triangle_widest :
    let demo : Demo := .new 153722867280912931 .device
    (2 ≤ demo.binCount ∧ 120 * (demo.binCount - 1) < 2 ^ 64) ∧
      ∃ bin : Nat → Nat, (∀ index, demo.peakBin? index = some (bin index)) ∧
        Triangle bin demo.binCount := by
  intro demo
  have several : 2 ≤ demo.binCount := by decide
  have span : 120 * (demo.binCount - 1) < 2 ^ 64 := by decide
  exact ⟨⟨several, span⟩, peakBin?_triangle several span⟩

end Demo

end SpectrumViewer
