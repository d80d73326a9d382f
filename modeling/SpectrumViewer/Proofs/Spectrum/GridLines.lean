import SpectrumViewer.Proofs.Number.Relative
import SpectrumViewer.Proofs.Spectrum.TickLabels

set_option autoImplicit false

/-!
The grid lines of a chart. A tick is placed in steps of the height, a magnitude by its part of the
scale; both are close to the same exact place, so a line stands where the magnitude of its label is
drawn (`aligned_yTicks`). Their order is that of the magnitudes, since each of the roundings on the
way is monotone.
-/

namespace SpectrumViewer

open Binary32
open Spectrum (scaleOf)

/-- The upper and the lower edge of an area on a screen, at least half a pixel apart. -/
structure Area.Stands (area : Area) (t b : ℚ) : Prop where
  top : area.top.value? = some t
  bottom : area.bottom.value? = some b
  tall : 1 / 2 ≤ b - t
  small : |t| ≤ 2 ^ 15 ∧ |b| ≤ 2 ^ 15

namespace Chart

/-- Six ticks, each labelled with its magnitude and where this magnitude is drawn up to a tolerance,
and none of them below one before it. -/
structure Aligned (ticks : List Tick) (area : Area) (scale : Binary32) (tolerance : ℚ) : Prop where
  count : ticks.length = 6
  labelled {i tick} : ticks[i]? = some tick →
    tick.label = Label.magnitude (tickValue scale i) scale
  drawn {i tick} : ticks[i]? = some tick → ∃ p y, tick.position.value? = some p ∧
    (magnitudeY area scale (tickValue scale i)).value? = some y ∧ |p - y| ≤ tolerance
  upwards : ticks.Pairwise fun lower upper => upper.position ≤ lower.position

section Places

variable {area : Area} {scale : Binary32} {t b s : ℚ} {i j : Nat}

/-- The exact place of a tick. -/
def tickPlace (t b : ℚ) (i : Nat) : ℚ := b - i * (b - t) / 5

theorem moderate_count (small : i ≤ ySteps) : Moderate 3 i := by
  rcases Nat.eq_zero_or_pos i with rfl | positive
  · exact Or.inl Nat.cast_zero
  have least : (1 : ℚ) ≤ i := mod_cast positive
  have most : (i : ℚ) ≤ 5 := mod_cast small
  right
  rw [Nat.abs_cast]
  constructor <;> linarith

theorem moderate_five : Moderate 3 5 := moderate_count (le_refl ySteps)

theorem value?_five : (ofNat ySteps).value? = some (5 : ℚ) := value?_ySteps

section Height

variable (stands : area.Stands t b)

include stands

theorem moderate_height : Moderate 16 (b - t) := by
  obtain ⟨⟨_, _⟩, _, _⟩ := stands.small.imp abs_le.mp abs_le.mp
  have tall := stands.tall
  right
  rw [abs_of_pos (by linarith)]
  constructor <;> linarith

theorem close_height : Close 1 (area.bottom - area.top) (b - t) :=
  close_sub stands.bottom stands.top ((moderate_height stands).mono (by decide))

/-- The way from the lower edge to a tick: the height, a product and a quotient are rounded. -/
theorem close_tickShift (within : i ≤ ySteps) :
    Close 3 (ofNat i * (area.bottom - area.top) / ofNat ySteps) (i * (b - t) / 5) := by
  have size := (moderate_count within).mul (moderate_height stands)
  have product : Close 2 (ofNat i * (area.bottom - area.top)) (i * (b - t)) :=
    (close_of_value? (value?_count within)).mul (close_height stands) rfl (by decide)
      (size.mono (by decide))
  exact product.div value?_five (by norm_num) rfl (by decide)
    ((size.div moderate_five).mono (by decide))

theorem abs_tickPlace_le (within : i ≤ ySteps) :
    |i * (b - t) / 5| ≤ |t| + |b| ∧ |tickPlace t b i| ≤ |t| + |b| := by
  have tall := stands.tall
  have part : (i / 5 : ℚ) ≤ 1 := by
    rw [div_le_one (by norm_num)]
    exact_mod_cast within
  have nonneg : (0 : ℚ) ≤ i / 5 := by positivity
  have way : i * (b - t) / 5 = i / 5 * (b - t) := by ring
  have low : 0 ≤ i / 5 * (b - t) := mul_nonneg nonneg (by linarith)
  have high : i / 5 * (b - t) ≤ b - t := mul_le_of_le_one_left (by linarith) part
  have edgeT := abs_le.mp (le_refl |t|)
  have edgeB := abs_le.mp (le_refl |b|)
  rw [tickPlace, way, abs_le, abs_le]
  exact ⟨⟨by linarith, by linarith⟩, by linarith, by linarith⟩

theorem edges_le : 1 / 2 ≤ |t| + |b| ∧ |t| + |b| ≤ 2 ^ 100 := by
  have tall := stands.tall
  have least := abs_sub b t
  have high := le_abs_self (b - t)
  obtain ⟨smallT, smallB⟩ := stands.small
  constructor <;> linarith

theorem tickY_near (within : i ≤ ySteps) :
    ∃ p, (tickY area i).value? = some p ∧
      |p - tickPlace t b i| ≤ 4 * unitError * (|t| + |b|) := by
  obtain ⟨way, place⟩ := abs_tickPlace_le stands within
  obtain ⟨least, most⟩ := edges_le stands
  rw [tickPlace, sub_eq_add_neg] at place ⊢
  obtain ⟨p, value, near⟩ := Close.exists_add stands.bottom (close_tickShift stands within).neg
    (by decide) ((abs_neg _).trans_le way) place least most
  exact ⟨p, value, near.trans_eq (by norm_num)⟩

theorem tickY_le_tickY (le : i ≤ j) (within : j ≤ ySteps) : tickY area j ≤ tickY area i := by
  obtain ⟨h, height, near⟩ := close_height stands
  have nonneg : 0 ≤ h := by
    have tall := stands.tall
    rw [abs_of_nonneg (by linarith : 0 ≤ b - t), unitError] at near
    have := (abs_le.mp near).1
    norm_num at this
    linarith
  have product : ofNat i * (area.bottom - area.top) ≤ ofNat j * (area.bottom - area.top) := by
    apply (isRounding_mul (value?_count (le.trans within)) height).le
      (isRounding_mul (value?_count within) height)
    exact mul_le_mul_of_nonneg_right (mod_cast le) nonneg
  have shift := div_le_div_right value?_five (by norm_num) product
  obtain ⟨u, wayI, -⟩ := close_tickShift stands (le.trans within)
  obtain ⟨v, wayJ, -⟩ := close_tickShift stands within
  apply (isRounding_sub stands.bottom wayJ).le (isRounding_sub stands.bottom wayI)
  rw [le_iff wayI wayJ] at shift
  linarith

variable (hs : scale.value? = some s) (size : Moderate 100 s) (positive : 0 < s)

include hs size positive

/-- The way from the lower edge to a magnitude that is a tick's: the tick's own two roundings, the
height, a product and a quotient. -/
theorem close_magnitudeShift (within : i ≤ ySteps) :
    Close 5 ((tickValue scale i - 0) * (area.top - area.bottom) / (scale - 0))
      (-(i * (b - t) / 5)) := by
  have count := moderate_count within
  have product : Close 1 (scale * ofNat i) (s * i) :=
    (close_of_value? hs).mul (close_of_value? (value?_count within)) rfl (by decide)
      ((size.mul count).mono (by decide))
  have tick : Close 2 (tickValue scale i) (s * i / 5) :=
    product.div value?_five (by norm_num) rfl (by decide)
      (((size.mul count).div moderate_five).mono (by decide))
  have span : Moderate 16 (t - b) := by
    rw [← neg_sub]
    exact (moderate_height stands).neg
  have height : Close 1 (area.top - area.bottom) (t - b) :=
    close_sub stands.top stands.bottom (span.mono (by decide))
  have scaled : Close 4 ((tickValue scale i - 0) * (area.top - area.bottom))
      (s * i / 5 * (t - b)) :=
    tick.sub_zero.mul height rfl (by decide)
      ((((size.mul count).div moderate_five).mul span).mono (by decide))
  have same : s * i / 5 * (t - b) / s = -(i * (b - t) / 5) := by
    field_simp
    ring
  rw [← same]
  apply scaled.div (value?_sub_zero hs) positive.ne' rfl (by decide)
  rw [same]
  exact (((count.mul (moderate_height stands)).div moderate_five).neg).mono (by decide)

theorem magnitudeY_tickValue_near (within : i ≤ ySteps) :
    ∃ y, (magnitudeY area scale (tickValue scale i)).value? = some y ∧
      |y - tickPlace t b i| ≤ 6 * unitError * (|t| + |b|) := by
  obtain ⟨way, place⟩ := abs_tickPlace_le stands within
  obtain ⟨least, most⟩ := edges_le stands
  rw [tickPlace, sub_eq_add_neg] at place ⊢
  obtain ⟨y, value, near⟩ := Close.exists_add stands.bottom
    (close_magnitudeShift stands hs size positive within) (by decide) ((abs_neg _).trans_le way)
    place least most
  exact ⟨y, value, near.trans_eq (by norm_num)⟩

end Height

end Places

/-- On scales that are neither tiny nor enormous, the ticks of the magnitude axis are aligned with
the trace up to a millionth part of the edges. -/
theorem aligned_yTicks {values : List Binary32} {area : Area} {t b s : ℚ}
    (scale : (scaleOf (Spectrum.loudest values)).value? = some s)
    (size : 1 / 2 ^ 100 ≤ s ∧ s ≤ 2 ^ 100) (stands : area.Stands t b) (sampleRate : Binary32)
    (fftSize : Nat) :
    Aligned (layout values area sampleRate fftSize).yTicks area (scaleOf (Spectrum.loudest values))
      ((|t| + |b|) / 2 ^ 20) := by
  have positive : 0 < s := lt_of_lt_of_le (by positivity) size.1
  have moderate : Moderate 100 s := by
    right
    rwa [abs_of_pos positive]
  have found {i : Nat} {tick : Tick}
      (here : (layout values area sampleRate fftSize).yTicks[i]? = some tick) :
      i ≤ ySteps ∧ tick = ⟨tickY area i, Label.magnitude
        (tickValue (scaleOf (Spectrum.loudest values)) i) (scaleOf (Spectrum.loudest values))⟩ := by
    obtain ⟨n, counted, rfl⟩ := Option.map_eq_some_iff.mp ((List.getElem?_map ..).symm.trans here)
    obtain ⟨below, rfl⟩ := List.getElem?_eq_some_iff.mp counted
    rw [List.length_range] at below
    rw [List.getElem_range]
    exact ⟨Nat.le_of_lt_succ below, rfl⟩
  constructor
  · exact (List.length_map _).trans List.length_range
  · intro i tick here
    rw [(found here).2]
  · intro i tick here
    obtain ⟨within, rfl⟩ := found here
    obtain ⟨p, position, nearP⟩ := tickY_near stands within
    obtain ⟨y, drawn, nearY⟩ := magnitudeY_tickValue_near stands scale moderate positive within
    refine ⟨p, y, position, drawn, ?_⟩
    have nonneg : 0 ≤ |t| + |b| := by positivity
    rw [abs_sub_comm] at nearY
    calc |p - y| ≤ |p - tickPlace t b i| + |tickPlace t b i - y| := abs_sub_le _ _ _
      _ ≤ 4 * unitError * (|t| + |b|) + 6 * unitError * (|t| + |b|) := add_le_add nearP nearY
      _ ≤ (|t| + |b|) / 2 ^ 20 := by
        rw [unitError]
        linarith
  · rw [List.pairwise_iff_getElem]
    intro i j first second less
    obtain ⟨withinI, tickI⟩ := found (List.getElem?_eq_getElem first)
    obtain ⟨withinJ, tickJ⟩ := found (List.getElem?_eq_getElem second)
    rw [tickI, tickJ]
    exact tickY_le_tickY stands less.le withinJ

/-- The smallest scale, in the lowest of the flattest areas. -/
theorem aligned_yTicks_quietest :
    let quiet : Binary32 := .finite false ⟨0x0D800000, by decide⟩
    let values : List Binary32 := [zeroOf false, quiet, zeroOf true]
    let area : Area := ⟨0, .ofNat 32767, 0, .ofNat 32768⟩
    ((scaleOf (Spectrum.loudest values)).value? = some (1 / 2 ^ 100) ∧ area.Stands 32767 32768) ∧
      Aligned (layout values area 44100 8).yTicks area (scaleOf (Spectrum.loudest values))
        (65535 / 2 ^ 20) := by
  intro quiet values area
  have scale : (scaleOf (Spectrum.loudest values)).value? = some (1 / 2 ^ 100) := by
    have shown : scaleOf (Spectrum.loudest values) = quiet := by decide
    rw [shown]
    exact value?_of_units (n := 2 ^ 49) rfl (by norm_num)
  have stands : area.Stands 32767 32768 := by
    constructor <;> decide +kernel
  have aligned := aligned_yTicks scale ⟨le_rfl, by norm_num⟩ stands 44100 8
  norm_num at aligned
  exact ⟨⟨scale, stands⟩, aligned⟩

end Chart

end SpectrumViewer
