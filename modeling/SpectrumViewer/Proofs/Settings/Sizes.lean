import SpectrumViewer.Proofs.Demo.Magnitude
import SpectrumViewer.Proofs.Waterfall.Scrolling
import SpectrumViewer.Settings.Basic

set_option autoImplicit false

/-!
Which settings keep the sizes that are computed from them within 64 bits. Accepted settings have no
upper bounds. Those of the waterfall are all words exactly if its number of pixels is one, since
every place in the grid is at most that, and those of the synthetic device's sweep exactly if half
a period times the band is one (`inRange_iff`).
-/

namespace SpectrumViewer

namespace Waterfall

/-- A row of the grid, cell by cell. Nothing comes of it where a place is no word or lies outside
the grid. -/
def readRow? (w : Waterfall) (index : Nat) : Option (List Colour) := do
  let start ← Word.product? index w.width
  let finish ← Word.sum? start w.width
  if finish ≤ w.pixels.length then some ((w.pixels.drop start).take w.width) else none

/-- All places that are computed to scroll the grid and to read its rows are words, and they lie
within the grid. -/
structure InRange (w : Waterfall) : Prop where
  scroll : ∀ values, ∃ pixels, w.scroll? (Row.colours w.curve values w.width) = some pixels
  read : ∀ index < w.height, ∃ row, w.readRow? index = some row ∧ w.row? index = some row

namespace Sound

variable {w v : Waterfall}

theorem readRow?_eq (s : w.Sound) (index : Nat) : w.readRow? index = w.row? index := by
  have fits := s.fits
  rw [readRow?, row?, s.length_pixels]
  by_cases inside : index < w.height
  · have finish : index * w.width + w.width ≤ w.height * w.width := by
      rw [← Nat.succ_mul]
      exact Nat.mul_le_mul_right _ inside
    rw [if_pos inside, Word.product?_eq_some_of_lt (by omega)]
    simp only [Option.bind_eq_bind, Option.bind_some]
    rw [Word.sum?_eq_some_of_lt (by omega)]
    exact if_pos finish
  · rw [if_neg inside]
    have beyond : w.height * w.width ≤ index * w.width :=
      Nat.mul_le_mul_right _ (Nat.le_of_not_lt inside)
    have positive := s.width_pos
    cases begun : Word.product? index w.width with
    | none => rfl
    | some start =>
      simp only [Option.bind_eq_bind, Option.bind_some]
      cases ended : Word.sum? start w.width with
      | none => rfl
      | some finish =>
        obtain ⟨rfl, -⟩ := Word.product?_eq_some begun
        obtain ⟨rfl, -⟩ := Word.sum?_eq_some ended
        exact if_neg (by omega)

theorem inRange (s : w.Sound) : w.InRange := by
  constructor
  · intro values
    exact ⟨_, s.scroll?_eq (Row.length_colours w.curve values w.width)⟩
  · intro index inside
    refine ⟨_, ?_, if_pos inside⟩
    rw [s.readRow?_eq index]
    exact if_pos inside

/-- What is done to a sound grid leaves it sound. -/
theorem perform? (s : w.Sound) (o : Operation) (done : o.perform? w = some v) : v.Sound := by
  cases o with
  | reset =>
    obtain rfl := Option.some.inj done
    exact (reset_shows s.width_pos s.height_pos s.fits).toSound
  | push values =>
    have row : (Row.colours w.curve values w.width).length = w.width :=
      Row.length_colours w.curve values w.width
    obtain ⟨after, pushed, rfl⟩ := Option.map_eq_some_iff.mp done
    rw [push?, s.scroll?_eq row] at pushed
    simp only [Option.bind_eq_bind, Option.bind_some] at pushed
    obtain ⟨rowsPushed, -, same⟩ := Option.bind_eq_some_iff.mp pushed
    obtain rfl := Option.some.inj same
    rw [value_pushed]
    exact ⟨s.width_pos, s.height_pos, s.length_scroll row, s.fits⟩

theorem runAll? (s : w.Sound) (operations : List Operation)
    (done : w.runAll? operations = some v) : v.Sound := by
  induction operations generalizing w with
  | nil =>
    obtain rfl := Option.some.inj done
    exact s
  | cons o rest ih =>
    obtain ⟨u, first, later⟩ := Option.bind_eq_some_iff.mp done
    exact ih (s.perform? o first) later

end Sound

end Waterfall

namespace Demo

/-- The tone of every frame has a bin exactly if the product at the turn of the sweep is a word. -/
theorem peakBin?_inRange_iff (demo : Demo) :
    (∀ index < Word.count, ∃ bin, demo.peakBin? index = some bin) ↔
      120 * (demo.binCount - 1) < 2 ^ 64 := by
  constructor
  · intro all
    obtain ⟨bin, known⟩ := all 120 (by decide)
    rw [peakBin?] at known
    split at known
    · omega
    · obtain ⟨n, product, -⟩ := Option.map_eq_some_iff.mp known
      obtain ⟨rfl, small⟩ := Word.product?_eq_some product
      exact small
  · intro span index _
    obtain ⟨bin, known, -⟩ := exists_peakBin demo index span
    exact ⟨bin, known⟩

end Demo

namespace Settings

/-- The waterfall before its first frame. -/
def emptyWaterfall (s : Settings) : Waterfall :=
  .new s.waterfallColumns s.waterfallDepth.toNat s.newestAt s.intensity

/-- The number of pixels of the waterfall is a word, and so are all places in it, whatever was done
to it. Nothing that is done to it fails as long as the count of its rows is a word. -/
structure WaterfallInRange (s : Settings) : Prop where
  pixels : ∃ n, Word.product? s.emptyWaterfall.width s.emptyWaterfall.height = some n
  places : ∀ operations w, s.emptyWaterfall.runAll? operations = some w → w.InRange
  runs : ∀ operations, operations.length < Word.count →
    ∃ w, s.emptyWaterfall.runAll? operations = some w

/-- The bin of the tone is computed within words, in every frame of the synthetic device. -/
def SweepInRange (s : Settings) : Prop :=
  ∀ index < Word.count, ∃ bin, (Demo.new s.binCount s.framing).peakBin? index = some bin

theorem waterfallInRange_iff {s : Settings} (accepted : s.Accepted) :
    s.WaterfallInRange ↔ s.waterfallColumns * s.waterfallDepth.toNat < 2 ^ 64 := by
  obtain ⟨columns, rows⟩ := accepted.waterfall_pos
  have width : max s.waterfallColumns 1 = s.waterfallColumns := Nat.max_eq_left columns
  have height : max s.waterfallDepth.toNat 1 = s.waterfallDepth.toNat := Nat.max_eq_left rows
  constructor
  · rintro ⟨⟨n, pixels⟩, -⟩
    obtain ⟨rfl, small⟩ := Word.product?_eq_some pixels
    rw [← width, ← height]
    exact small
  · intro small
    rw [← width, ← height] at small
    have shows := Waterfall.new_shows s.newestAt s.intensity small
    refine ⟨⟨_, Word.product?_eq_some_of_lt small⟩, ?_, ?_⟩
    · intro operations w done
      exact (shows.toSound.runAll? operations done).inRange
    · intro operations few
      obtain ⟨w, done, -⟩ :=
        Waterfall.runAll?_new_shows s.newestAt s.intensity operations small few
      exact ⟨w, done⟩

/-- Accepted settings keep their sizes within words exactly if two products do: the columns of the
waterfall times its rows, and half a period of the sweep times the steps of the band. -/
theorem inRange_iff {s : Settings} (accepted : s.Accepted) :
    (s.WaterfallInRange ↔ s.waterfallColumns * s.waterfallDepth.toNat < 2 ^ 64) ∧
      (s.SweepInRange ↔ 120 * (s.binCount - 1) < 2 ^ 64) :=
  ⟨waterfallInRange_iff accepted, (Demo.new s.binCount s.framing).peakBin?_inRange_iff⟩

/-- The longest transform with a sweep in range, and the deepest waterfall for it. -/
theorem inRange_longest :
    let s : Settings := { standard with fftSize := 307445734561825862, waterfallDepth := 119 }
    s.Accepted ∧ s.WaterfallInRange ∧ s.SweepInRange := by
  intro s
  have accepted : s.Accepted := by decide +kernel
  obtain ⟨waterfall, sweep⟩ := inRange_iff accepted
  exact ⟨accepted, waterfall.mpr (by decide), sweep.mpr (by decide)⟩

/-- A transform of half the words is accepted too, but then neither the number of pixels nor the
product at the turn of the sweep is a word. -/
theorem not_inRange_accepted :
    let s : Settings := { standard with fftSize := 9223372036854775808 }
    s.Accepted ∧ Word.product? s.emptyWaterfall.width s.emptyWaterfall.height = none ∧
      (Demo.new s.binCount s.framing).peakBin? 120 = none ∧
      ¬s.WaterfallInRange ∧ ¬s.SweepInRange := by
  intro s
  have pixels : Word.product? s.emptyWaterfall.width s.emptyWaterfall.height = none := by
    decide +kernel
  have turn : (Demo.new s.binCount s.framing).peakBin? 120 = none := by decide +kernel
  refine ⟨by decide +kernel, pixels, turn, ?_, ?_⟩
  · rintro ⟨⟨n, word⟩, -, -⟩
    rw [pixels] at word
    cases word
  · intro inRange
    obtain ⟨bin, known⟩ := inRange 120 (by decide)
    rw [turn] at known
    cases known

end Settings

end SpectrumViewer
