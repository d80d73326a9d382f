import SpectrumViewer.Proofs.Spectrum.Legibility
import SpectrumViewer.Proofs.Spectrum.Loudest
import SpectrumViewer.Proofs.Spectrum.Mapping
import SpectrumViewer.Settings.Basic

set_option autoImplicit false

/-!
The chart of a frame. It stays within a pixel of its area, and all its texts are numbers, exactly if
four results are finite: the sample rate itself, and the products that are formed before a division
(`sound_layout_iff`). Magnitudes and rates that are not enormous keep all of them in range.
-/

namespace SpectrumViewer

open Binary32
open Spectrum (Nonnegative IsLoudest scaleOf peakBin)

/-- The edges of an area on a screen. -/
structure Area.Spans (area : Area) (l t r b : ℚ) : Prop where
  left : area.left.value? = some l
  top : area.top.value? = some t
  right : area.right.value? = some r
  bottom : area.bottom.value? = some b
  wide : l < r
  tall : t < b
  small : (|l| ≤ 2 ^ 15 ∧ |r| ≤ 2 ^ 15) ∧ |t| ≤ 2 ^ 15 ∧ |b| ≤ 2 ^ 15

namespace Chart

/-- Every point lies within a pixel of the area, every tick has a place, and every text is
legible. -/
structure Sound (chart : Chart) (l t r b : ℚ) : Prop where
  points : ∀ p ∈ chart.points, p.x.Within (l - 1) (r + 1) ∧ p.y.Within (t - 1) (b + 1)
  xTicks : ∀ tick ∈ chart.xTicks, tick.position.isFinite = true ∧ Label.Legible tick.label
  yTicks : ∀ tick ∈ chart.yTicks, tick.position.isFinite = true ∧ Label.Legible tick.label
  info : ∀ line ∈ chart.info, Label.Legible line

/-- What is formed before a division stays finite, and the sample rate is finite. -/
structure InRange (values : List Binary32) (area : Area) (sampleRate : Binary32) : Prop where
  height : (Spectrum.loudest values * (area.top - area.bottom)).isFinite = true
  scale : (scaleOf (Spectrum.loudest values) * .ofNat ySteps).isFinite = true
  rate : sampleRate.isFinite = true
  peak : (.ofNat (peakBin values) * sampleRate).isFinite = true

section Edges

variable {x y : Binary32} {p q : ℚ}

theorem within_span (hx : x.value? = some p) (hy : y.value? = some q) (smallX : |p| ≤ 2 ^ 15)
    (smallY : |q| ≤ 2 ^ 15) : (x - y).Within (-2 ^ 16) (2 ^ 16) := by
  have edge : Representable (2 ^ 16) := representable_two_pow (by decide)
  apply (within_of_abs_le hx smallX).sub (within_of_abs_le hy smallY) edge.neg edge
  · norm_num
  · norm_num

end Edges

theorem value?_xSteps : (ofNat xSteps).value? = some (xSteps : ℚ) :=
  value?_ofNat (representable_natCast (by decide))

theorem value?_ySteps : (ofNat ySteps).value? = some (ySteps : ℚ) :=
  value?_ofNat (representable_natCast (by decide))

section Ticks

variable {area : Area} {l t r b : ℚ} (spans : area.Spans l t r b)

include spans

theorem isFinite_tickX {part : Binary32} (proper : part.Within 0 1) :
    (area.left + (area.right - area.left) * part).isFinite = true := by
  have edge : Representable (2 ^ 16) := representable_two_pow (by decide)
  have limit : Representable (2 ^ 17) := representable_two_pow (by decide)
  obtain ⟨⟨smallL, smallR⟩, -⟩ := spans.small
  have span := within_span spans.right spans.left smallR smallL
  have shift : ((area.right - area.left) * part).Within (-2 ^ 16) (2 ^ 16) :=
    span.mul_abs (proper.mono (by norm_num) le_rfl) edge (mul_one _).le
  have tick : (area.left + (area.right - area.left) * part).Within (-2 ^ 17) (2 ^ 17) := by
    apply (within_of_abs_le spans.left smallL).add shift limit.neg limit
    · norm_num
    · norm_num
  exact tick.isFinite

theorem isFinite_tickY {i : Nat} (below : i ≤ ySteps) : (tickY area i).isFinite = true := by
  have limit (k : Nat) (small : k < 128) : Representable (2 ^ k) := representable_two_pow small
  obtain ⟨-, smallT, smallB⟩ := spans.small
  have span := within_span spans.bottom spans.top smallB smallT
  have count : (ofNat i).Within (-2 ^ 3) (2 ^ 3) :=
    (within_ofNat (below.trans (by decide)) (by decide)).mono (by norm_num) le_rfl
  have product : (ofNat i * (area.bottom - area.top)).Within (-2 ^ 19) (2 ^ 19) :=
    count.mul_abs span (limit 19 (by decide)) (by norm_num)
  have shift : (ofNat i * (area.bottom - area.top) / ofNat ySteps).Within (-2 ^ 19) (2 ^ 19) := by
    apply product.div value?_ySteps (by norm_num [ySteps]) (limit 19 (by decide)).neg (limit 19 (by decide))
    · norm_num [ySteps]
    · norm_num [ySteps]
  have tick : (tickY area i).Within (-2 ^ 20) (2 ^ 20) := by
    apply (within_of_abs_le spans.bottom smallB).sub shift (limit 20 (by decide)).neg
      (limit 20 (by decide))
    · norm_num
    · norm_num
  exact tick.isFinite

theorem sound_frequencyTicks_iff {sampleRate : Binary32} :
    (∀ tick ∈ frequencyTicks area.left area.right sampleRate,
      tick.position.isFinite = true ∧ Label.Legible tick.label) ↔ sampleRate.isFinite = true := by
  have two : (2 : Binary32).value? = some ((2 : Nat) : ℚ) :=
    value?_ofNat (representable_natCast (by decide))
  have half : (Spectrum.nyquist sampleRate).isFinite = true ↔ sampleRate.isFinite = true :=
    isFinite_div_iff two (by norm_num)
  simp only [frequencyTicks, List.forall_mem_map, List.mem_range, Label.legible_frequency_iff]
  constructor
  · intro sound
    exact half.mp (isFinite_of_mul (sound 0 (Nat.succ_pos _)).2).1
  · intro finite i below
    have count : (ofNat i).value? = some (i : ℚ) :=
      value?_ofNat (representable_natCast (by unfold xSteps at below; omega))
    have within : (i : ℚ) ≤ xSteps := mod_cast Nat.le_of_lt_succ below
    have proper : (ofNat i / ofNat xSteps).Within 0 1 := by
      apply Within.div ⟨_, count, le_rfl, within⟩ value?_xSteps (by norm_num [xSteps])
        representable_zero representable_one
      · rw [zero_mul]
        exact Nat.cast_nonneg i
      · rw [one_mul]
    refine ⟨isFinite_tickX spans proper, ?_⟩
    obtain ⟨f, part, nonneg, small⟩ := proper
    obtain ⟨n, value⟩ := isFinite_iff.mp (half.mpr finite)
    have whole : (Spectrum.nyquist sampleRate * 1).isFinite = true :=
      isFinite_of_value? ((rounds_mul value value?_one).exact_of_eq (mul_one n) ⟨_, value⟩)
    apply isFinite_mul_of_abs_le value part value value?_one _ whole
    rw [abs_mul, mul_one, abs_of_nonneg nonneg]
    exact mul_le_of_le_one_right (abs_nonneg n) small

/-- The magnitude axis is sound exactly if the scale times the number of its steps is finite. -/
theorem sound_magnitudeTicks_iff {scale : Binary32} {s : ℚ} (hs : scale.value? = some s) :
    (∀ tick ∈ magnitudeTicks area scale,
      tick.position.isFinite = true ∧ Label.Legible tick.label) ↔
      (scale * .ofNat ySteps).isFinite = true := by
  have divided {x : Binary32} : (x / ofNat ySteps).isFinite = true ↔ x.isFinite = true :=
    isFinite_div_iff value?_ySteps (by norm_num [ySteps])
  simp only [magnitudeTicks, List.forall_mem_map, List.mem_range, Label.legible_magnitude_iff,
    tickValue, divided]
  constructor
  · intro sound
    exact (sound ySteps (Nat.lt_succ_self _)).2
  · intro finite i below
    have within := Nat.le_of_lt_succ below
    refine ⟨isFinite_tickY spans within, ?_⟩
    have count : (ofNat i).value? = some (i : ℚ) :=
      value?_ofNat (representable_natCast (within.trans (by decide)))
    apply isFinite_mul_of_abs_le hs count hs value?_ySteps _ finite
    rw [abs_mul, abs_mul, Nat.abs_cast, Nat.abs_cast]
    exact mul_le_mul_of_nonneg_left (mod_cast within) (abs_nonneg s)

end Ticks

section Trace

variable {area : Area} {l t r b m : ℚ} {values : List Binary32} (spans : area.Spans l t r b)
  (nonnegative : Nonnegative values) (frame : values.length ≤ Word.largestBlock)
  (value : (Spectrum.loudest values).value? = some m) (loud : IsLoudest values m)

include spans

theorem within_binX (frame : values.length ≤ Word.largestBlock) {bin : Nat}
    (inside : bin < values.length) :
    (binX area values.length bin).Within (l - 1) (r + 1) := by
  obtain ⟨⟨smallL, smallR⟩, -⟩ := spans.small
  rw [binX]
  by_cases single : values.length ≤ 1
  · rw [if_pos single]
    exact ⟨l, spans.left, by linarith, by linarith [spans.wide]⟩
  rw [if_neg single]
  obtain ⟨n, count, nonneg, small⟩ := within_size (inside.le.trans frame)
  obtain ⟨k, last, above, -⟩ :=
    within_size_of_pos (n := values.length - 1) (by omega) ((Nat.sub_le _ 1).trans frame)
  have ordered : n ≤ k := (isRounding_ofNat bin).nearest.mono
    (isRounding_ofNat (values.length - 1)).nearest count last (Nat.cast_le.mpr (by omega))
  obtain ⟨d, span, low, high⟩ := within_span spans.right spans.left smallR smallL
  have finite : (ofNat bin * (area.right - area.left)).isFinite = true :=
    isFinite_mul count span ((abs_of_nonneg nonneg).trans_le small) (abs_le.mpr ⟨low, high⟩)
      (by decide)
  exact within_mapRange count last spans.left spans.right nonneg ordered
    (zero_lt_one.trans_le above) smallL smallR finite ⟨le_rfl, spans.wide.le⟩
    ⟨spans.wide.le, le_rfl⟩

include nonnegative frame value loud

/-- The trace is sound exactly if the loudest magnitude times the height is finite. -/
theorem sound_trace_iff :
    (∀ p ∈ trace area (scaleOf (Spectrum.loudest values)) values,
      p.x.Within (l - 1) (r + 1) ∧ p.y.Within (t - 1) (b + 1)) ↔
      (Spectrum.loudest values * (area.top - area.bottom)).isFinite = true := by
  obtain ⟨-, smallT, smallB⟩ := spans.small
  obtain ⟨s, scale, positive, most⟩ := Spectrum.exists_scaleOf value
  obtain ⟨d, span, -, -⟩ := within_span spans.top spans.bottom smallT smallB
  constructor
  · intro sound
    rcases loud.attained with zero | ⟨x, among, same⟩
    · rw [(isRounding_mul value span).isFinite_iff, zero, zero_mul, abs_zero]
      norm_num
    · obtain ⟨bin, found⟩ := List.getElem?_of_mem among
      have point : Point.mk (binX area values.length bin)
          (magnitudeY area (scaleOf (Spectrum.loudest values)) x) ∈
          trace area (scaleOf (Spectrum.loudest values)) values := by
        apply List.mem_map.mpr
        exact ⟨(x, bin), List.mem_zipIdx_iff_getElem?.mpr found, rfl⟩
      have finite := isFinite_of_mapRange scale (sound _ point).2.isFinite
      exact isFinite_mul_of_abs_le value span (value?_sub_zero same) span le_rfl finite
  · intro finite p among
    obtain ⟨⟨x, bin⟩, found, rfl⟩ := List.mem_map.mp among
    rw [List.mem_zipIdx_iff_getElem?] at found
    obtain ⟨inside, -⟩ := List.getElem?_eq_some_iff.mp found
    refine ⟨within_binX spans frame inside, ?_⟩
    have among := List.mem_of_getElem? found
    obtain ⟨v, shown, nonneg⟩ := nonnegative x among
    have least : v ≤ m := loud.le x among v shown
    have product : (x * (area.top - area.bottom)).isFinite = true := by
      apply isFinite_mul_of_abs_le shown span value span _ finite
      rw [abs_mul, abs_mul, abs_of_nonneg nonneg, abs_of_nonneg loud.nonneg]
      exact mul_le_mul_of_nonneg_right least (abs_nonneg d)
    exact within_mapRange shown scale spans.bottom spans.top nonneg (least.trans most) positive
      smallB smallT product ⟨spans.tall.le, le_rfl⟩ ⟨le_rfl, spans.tall.le⟩

end Trace

theorem sound_infoLines_iff {values : List Binary32} {sampleRate : Binary32} {fftSize : Nat}
    (positive : 0 < fftSize) (word : fftSize < Word.count)
    (finite : (Spectrum.loudest values).isFinite = true) :
    (∀ line ∈ infoLines values sampleRate fftSize, Label.Legible line) ↔
      sampleRate.isFinite = true ∧ (.ofNat (peakBin values) * sampleRate).isFinite = true := by
  obtain ⟨n, size, large, -⟩ : (ofNat fftSize).Within 1 (2 ^ 64) :=
    within_ofNat_of_pos positive word.le (by decide)
  rw [legible_infoLines_iff, and_iff_right finite]
  exact and_congr (isFinite_div_iff size large) (isFinite_div_iff size large)

/-- Magnitudes up to `2 ^ 111` and sample rates up to `2 ^ 64` are in range. -/
theorem inRange_of_le {values : List Binary32} {area : Area} {sampleRate : Binary32}
    {l t r b m q : ℚ} (spans : area.Spans l t r b) (frame : values.length ≤ Word.largestBlock)
    (value : (Spectrum.loudest values).value? = some m) (nonneg : 0 ≤ m) (quiet : m ≤ 2 ^ 111)
    (rate : sampleRate.value? = some q) (nonnegRate : 0 ≤ q) (slow : q ≤ 2 ^ 64) :
    InRange values area sampleRate := by
  obtain ⟨-, smallT, smallB⟩ := spans.small
  obtain ⟨d, span, low, high⟩ := within_span spans.top spans.bottom smallT smallB
  constructor
  · exact isFinite_mul value span ((abs_of_nonneg nonneg).trans_le quiet)
      (abs_le.mpr ⟨low, high⟩) (by decide)
  · have size : |if 0 < m then m else 1| ≤ 2 ^ 111 := by
      split
      · exact (abs_of_nonneg nonneg).trans_le quiet
      · norm_num
    have steps : |(ySteps : ℚ)| ≤ 2 ^ 3 := by norm_num [ySteps]
    exact isFinite_mul (Spectrum.value?_scaleOf value) value?_ySteps size steps (by decide)
  · exact isFinite_of_value? rate
  · obtain ⟨n, count, above, below⟩ := within_size ((Spectrum.peakBin_le values).trans frame)
    exact isFinite_mul count rate ((abs_of_nonneg above).trans_le below)
      ((abs_of_nonneg nonnegRate).trans_le slow) (by decide)

/-- The chart of a frame in an area of a screen is sound exactly if what it forms before a division
stays in range, as it does for all but enormous magnitudes and sample rates. -/
theorem sound_layout_iff {values : List Binary32} {area : Area} {settings : Settings}
    {l t r b : ℚ} (signs : ∀ x ∈ values, ∃ code, x = .finite false code)
    (frame : values.length ≤ Word.largestBlock) (accepted : settings.Accepted)
    (spans : area.Spans l t r b) :
    (Sound (layout values area settings.sampleRate settings.fftSize.toNat) l t r b ↔
      InRange values area settings.sampleRate) ∧
      ((∀ x ∈ values, ∀ v, x.value? = some v → v ≤ 2 ^ 111) →
        settings.sampleRate.Within 0 (2 ^ 64) →
        Sound (layout values area settings.sampleRate settings.fftSize.toNat) l t r b) := by
  have nonnegative := Spectrum.nonnegative_of_sign signs
  obtain ⟨m, value, loud⟩ := Spectrum.isLoudest_loudest nonnegative
  have size := (settings.accepted_iff.mp accepted).1
  have points := sound_trace_iff spans nonnegative frame value loud
  have xTicks : _ ↔ settings.sampleRate.isFinite = true := sound_frequencyTicks_iff spans
  have yTicks := sound_magnitudeTicks_iff spans (Spectrum.value?_scaleOf value)
  have info : (∀ line ∈ infoLines values settings.sampleRate settings.fftSize.toNat, _) ↔ _ :=
    sound_infoLines_iff (Nat.zero_lt_of_lt size.1) settings.fftSize.toNat_lt
      (isFinite_of_value? value)
  have exact : Sound (layout values area settings.sampleRate settings.fftSize.toNat) l t r b ↔
      InRange values area settings.sampleRate := by
    constructor
    · intro sound
      exact ⟨points.mp sound.points, yTicks.mp sound.yTicks, xTicks.mp sound.xTicks,
        (info.mp sound.info).2⟩
    · intro range
      exact ⟨points.mpr range.height, xTicks.mpr range.rate, yTicks.mpr range.scale,
        info.mpr ⟨range.rate, range.peak⟩⟩
  refine ⟨exact, fun quiet rate => exact.mpr ?_⟩
  obtain ⟨q, rate, nonneg, slow⟩ := rate
  have least : m ≤ 2 ^ 111 := by
    rcases loud.attained with zero | ⟨x, among, same⟩
    · rw [zero]
      positivity
    · exact quiet x among m same
  exact inRange_of_le spans frame value loud.nonneg least rate nonneg slow

/-- The largest area, and the loudest magnitude that is sure to stay in it. -/
theorem sound_layout_limit :
    let area : Area :=
      ⟨neg (.ofNat (2 ^ 15)), neg (.ofNat (2 ^ 15)), .ofNat (2 ^ 15), .ofNat (2 ^ 15)⟩
    let values : List Binary32 := [zeroOf false, .finite false ⟨0x77000000, by decide⟩]
    let settings := Settings.standard
    settings.Accepted ∧ area.Spans (-2 ^ 15) (-2 ^ 15) (2 ^ 15) (2 ^ 15) ∧
      Sound (layout values area settings.sampleRate settings.fftSize.toNat) (-2 ^ 15) (-2 ^ 15)
        (2 ^ 15) (2 ^ 15) := by
  intro area values settings
  have signs : ∀ x ∈ values, ∃ code, x = .finite false code := by
    intro x among
    simp only [values, List.mem_cons, List.not_mem_nil, or_false] at among
    rcases among with rfl | rfl <;> exact ⟨_, rfl⟩
  have spans : area.Spans (-2 ^ 15) (-2 ^ 15) (2 ^ 15) (2 ^ 15) := by
    constructor <;> decide +kernel
  have accepted : settings.Accepted := by decide +kernel
  refine ⟨accepted, spans, ?_⟩
  exact (sound_layout_iff signs (by decide) accepted spans).1.mpr
    ⟨by decide +kernel, by decide +kernel, by decide +kernel, by decide +kernel⟩

/-- The product of a magnitude with the height is formed before it is divided by the scale, so that
the loudest bin of a loud frame leaves the picture instead of standing at its top. -/
theorem not_sound_layout_loud :
    let area : Area := ⟨0, 0, .ofNat 256, .ofNat 256⟩
    let settings : Settings := { Settings.standard with fftSize := 2 }
    let loud : Binary32 := .finite false ⟨0x7E000000, by decide⟩
    settings.Accepted ∧ area.Spans 0 0 256 256 ∧
      (layout [loud] area settings.sampleRate settings.fftSize.toNat).points =
        [⟨0, .infinite true⟩] ∧
      ¬Sound (layout [loud] area settings.sampleRate settings.fftSize.toNat) 0 0 256 256 := by
  intro area settings loud
  have points : (layout [loud] area settings.sampleRate settings.fftSize.toNat).points =
      [⟨0, .infinite true⟩] := by decide +kernel
  have spans : area.Spans 0 0 256 256 := by
    constructor <;> decide +kernel
  refine ⟨by decide +kernel, spans, points, fun sound => ?_⟩
  have within := (sound.points _ (points ▸ List.mem_singleton_self _)).2
  exact absurd within.isFinite (by decide)

end Chart

end SpectrumViewer
