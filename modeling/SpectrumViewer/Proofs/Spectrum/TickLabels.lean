import Mathlib.Order.WithBot
import SpectrumViewer.Frame.Payload
import SpectrumViewer.Proofs.Number.FixedPlaces
import SpectrumViewer.Proofs.Number.Monotone
import SpectrumViewer.Proofs.Spectrum.Layout

set_option autoImplicit false

/-!
Whether the labels of the magnitude axis can be told apart. They can exactly if each is a larger
number than the one below it, and this is so as long as the loudest magnitude is not so small that
a step of the axis gets lost in the last decimal place, nor so large that two of its ticks overflow
(`distinct_tickLabels_iff`).
-/

namespace SpectrumViewer

open BinaryFormat (single)
open Binary32

namespace FixedPlaces

/-- What a value is written as, in units of the last place. An infinity is written as no number
is. -/
def level (places : Nat) : Binary32 → WithTop ℕ
  | .finite _ code => (writtenUnits places code : ℕ)
  | _ => ⊤

variable {places : Nat} {x y : Binary32}

theorem placed_injective (fractional : places ≠ 0) : Function.Injective (placed places) := by
  intro m n same
  obtain ⟨whole, fraction, text, -, length, -, number⟩ := exists_placed fractional m
  obtain ⟨whole', fraction', text', -, length', -, number'⟩ := exists_placed fractional n
  rw [text, text'] at same
  obtain ⟨rfl, behind⟩ := List.append_inj' same (by simp [length, length'])
  obtain rfl := (List.cons.inj behind).2
  exact number.symm.trans number'

theorem toList_fixed_infinite : ((infinite false).fixed places).toList = "inf".toList := by
  rw [Binary32.fixed, String.toList_ofList]
  rfl

theorem placed_ne_infinity (n : Nat) : placed places n ≠ "inf".toList := by
  intro same
  have letter : 'i' ∈ placed places n := same ▸ by decide
  rcases Label.isDigit_of_mem_placed letter with digit | point
  · exact absurd digit (by decide)
  · exact absurd point (by decide)

/-- Two values without a minus are written alike exactly if they are at one level. -/
theorem fixed_eq_fixed_iff (fractional : places ≠ 0) (hx : x.Unsigned) (hy : y.Unsigned) :
    x.fixed places = y.fixed places ↔ level places x = level places y := by
  rw [← String.toList_inj]
  rcases hx.eq_infinite_or with rfl | ⟨c, rfl⟩ <;> rcases hy.eq_infinite_or with rfl | ⟨d, rfl⟩
  · exact iff_of_true rfl rfl
  · rw [toList_fixed_infinite, toList_fixed_finite]
    exact iff_of_false (placed_ne_infinity _).symm WithTop.top_ne_coe
  · rw [toList_fixed_infinite, toList_fixed_finite]
    exact iff_of_false (placed_ne_infinity _) WithTop.coe_ne_top
  · rw [toList_fixed_finite, toList_fixed_finite, (placed_injective fractional).eq_iff]
    exact WithTop.coe_inj.symm

theorem halfEven_writtenUnits {code : Fin single.infinityCode} {v : ℚ}
    (value : (finite false code).value? = some v) :
    HalfEven (v * 10 ^ places) (writtenUnits places code) := by
  obtain rfl := Option.some.inj value
  rw [signed_false, Int.cast_natCast, div_mul_eq_mul_div, ← Nat.cast_ofNat, ← Nat.cast_pow,
    ← Nat.cast_mul]
  exact halfEven_roundHalfEven _ (mod_cast Binary32.one_pos)

theorem level_le_level (hx : x.Unsigned) (hy : y.Unsigned) (le : x ≤ y) :
    level places x ≤ level places y := by
  rcases hy.eq_infinite_or with rfl | ⟨d, rfl⟩
  · exact le_top
  rcases hx.eq_infinite_or with rfl | ⟨c, rfl⟩
  · cases eq_infinite_of_le le
  · apply WithTop.coe_le_coe.mpr
    apply (halfEven_writtenUnits rfl).mono (halfEven_writtenUnits rfl)
    exact mul_le_mul_of_nonneg_right ((le_iff rfl rfl).mp le) (by positivity)

theorem level_lt_level {c d : Fin single.infinityCode} {v w : ℚ}
    (hv : (finite false c).value? = some v) (hw : (finite false d).value? = some w)
    (gap : 1 < (w - v) * 10 ^ places) :
    level places (finite false c) < level places (finite false d) := by
  apply WithTop.coe_lt_coe.mpr
  apply (halfEven_writtenUnits hv).lt_of_gap (halfEven_writtenUnits hw)
  rwa [← sub_mul]

end FixedPlaces

namespace Chart

open FixedPlaces (level)
open Spectrum (Nonnegative IsLoudest scaleOf)

theorem ySteps_eq : ofNat ySteps = finite false ⟨0x40A00000, by decide⟩ := by decide

section Ticks

variable {scale scale' : Binary32} {s s' : ℚ} {places i j : Nat}

theorem value?_count (small : i ≤ ySteps) : (ofNat i).value? = some (i : ℚ) :=
  value?_ofNat (representable_natCast (small.trans (by decide)))

variable (hs : scale.value? = some s)

include hs

theorem unsigned_tickValue (positive : 0 < s) (small : i ≤ ySteps) :
    (tickValue scale i).Unsigned := by
  obtain ⟨c, rfl⟩ := Within.eq_finite_false ⟨s, hs, le_rfl, le_rfl⟩ positive
  have count : (ofNat i).Unsigned := unsigned_ofNat i
  rcases count.eq_infinite_or with infinite | ⟨d, count⟩
  · have value := value?_count small
    rw [infinite] at value
    cases value
  have product : (finite false c * finite false d).Unsigned := ⟨_, finite_mul_finite _ _ _ _⟩
  rw [tickValue, count, ySteps_eq]
  exact product.div (by decide)

theorem level_le_level (hs' : scale'.value? = some s') (positive : 0 < s) (positive' : 0 < s')
    (withinI : i ≤ ySteps) (withinJ : j ≤ ySteps) (le : s * i ≤ s' * j) :
    level places (tickValue scale i) ≤ level places (tickValue scale' j) := by
  apply FixedPlaces.level_le_level (unsigned_tickValue hs positive withinI)
    (unsigned_tickValue hs' positive' withinJ)
  apply div_le_div_right value?_ySteps (by norm_num [ySteps])
  apply (isRounding_mul hs (value?_count withinI)).le _ le
  exact isRounding_mul hs' (value?_count withinJ)

theorem level_le_of_scale (hs' : scale'.value? = some s') (positive : 0 < s) (le : scale ≤ scale')
    (within : i ≤ ySteps) :
    level places (tickValue scale i) ≤ level places (tickValue scale' i) := by
  have ordered := (le_iff hs hs').mp le
  apply level_le_level hs hs' positive (positive.trans_le ordered) within within
  exact mul_le_mul_of_nonneg_right ordered (Nat.cast_nonneg i)

theorem tickValue_near (nonneg : 0 ≤ s) (small : i ≤ ySteps) {v : ℚ}
    (value : (tickValue scale i).value? = some v) :
    |v - s * i / 5| ≤ s / 2 ^ 22 + 1 / 2 ^ 148 := by
  have five : (ofNat ySteps).value? = some (5 : ℚ) := value?_ySteps
  have finite : (scale * ofNat i).isFinite = true :=
    isFinite_of_div (isFinite_of_value? value) (isFinite_of_value? five)
  obtain ⟨p, product⟩ := isFinite_iff.mp finite
  have errorP := (isRounding_mul hs (value?_count small)).nearest.error product
  have errorV := (isRounding_div product five (by norm_num)).nearest.error value
  have count : (i : ℚ) ≤ 5 := mod_cast small
  have exact : 0 ≤ s * i := by positivity
  have most : s * i ≤ s * 5 := mul_le_mul_of_nonneg_left count nonneg
  rw [abs_of_nonneg exact] at errorP
  have boundsP := abs_le.mp errorP
  have size : |p / 5| ≤ s * 2 + 1 / 2 ^ 150 := by
    rw [abs_le]
    constructor <;> linarith
  have boundsV := abs_le.mp errorV
  rw [abs_le]
  constructor <;> linarith

end Ticks

/-- The level that a tick is labelled with. -/
def tickLevel (scale : Binary32) (i : Nat) : WithTop ℕ :=
  level (Label.places scale) (tickValue scale i)

/-- Every tick is labelled with more than the one below it. -/
def Climbs (scale : Binary32) : Prop :=
  ∀ i < ySteps, tickLevel scale i < tickLevel scale (i + 1)

theorem places_ne_zero (top : Binary32) : Label.places top ≠ 0 := by
  unfold Label.places
  split_ifs <;> decide

section Labels

variable {scale : Binary32} {s : ℚ} {i j : Nat}

theorem Climbs.lt (climbs : Climbs scale) (less : i < j) (within : j ≤ ySteps) :
    tickLevel scale i < tickLevel scale j := by
  induction j, less using Nat.le_induction with
  | base => exact climbs i within
  | succ j _ ih => exact (ih (Nat.le_of_succ_le within)).trans (climbs j within)

theorem Climbs.le (climbs : Climbs scale) (within : i ≤ ySteps) :
    (i : WithTop ℕ) ≤ tickLevel scale i := by
  induction i with
  | zero => exact bot_le
  | succ i ih =>
    have more := (ih (Nat.le_of_succ_le within)).trans_lt (climbs i within)
    cases reached : tickLevel scale (i + 1) with
    | top => exact le_top
    | coe n =>
      rw [reached] at more
      exact WithTop.coe_le_coe.mpr (Nat.succ_le_of_lt (WithTop.coe_lt_coe.mp more))

/-- The labels differ exactly if they climb. -/
theorem nodup_labels_iff (area : Area) (hs : scale.value? = some s) (positive : 0 < s) :
    ((magnitudeTicks area scale).map Tick.label).Nodup ↔ Climbs scale := by
  have labels : (magnitudeTicks area scale).map Tick.label =
      (List.range (ySteps + 1)).map fun i => Label.magnitude (tickValue scale i) scale := by
    rw [magnitudeTicks, List.map_map]
    rfl
  have same {i j : Nat} (withinI : i ≤ ySteps) (withinJ : j ≤ ySteps) :
      Label.magnitude (tickValue scale i) scale = Label.magnitude (tickValue scale j) scale ↔
        tickLevel scale i = tickLevel scale j :=
    FixedPlaces.fixed_eq_fixed_iff (places_ne_zero scale) (unsigned_tickValue hs positive withinI)
      (unsigned_tickValue hs positive withinJ)
  rw [labels, List.nodup_map_iff_inj_on List.nodup_range]
  simp only [List.mem_range, Nat.lt_succ_iff]
  constructor
  · intro injective i below
    have ordered : tickLevel scale i ≤ tickLevel scale (i + 1) := by
      apply level_le_level hs hs positive positive below.le below
      exact mul_le_mul_of_nonneg_left (mod_cast Nat.le_succ i) positive.le
    apply ordered.lt_of_ne
    intro equal
    exact absurd (injective i below.le _ below ((same below.le below).mpr equal)) (Nat.ne_add_one i)
  · intro climbs i withinI j withinJ equal
    have level := (same withinI withinJ).mp equal
    rcases lt_trichotomy i j with less | equal | greater
    · exact absurd level (climbs.lt less withinJ).ne
    · exact equal
    · exact absurd level (climbs.lt greater withinI).ne'

end Labels

/-- The largest scale on which a step is lost in the last decimal place, and the next one. -/
def lost : Binary32 := finite false ⟨0x3696FEB4, by decide⟩
def kept : Binary32 := finite false ⟨0x3696FEB5, by decide⟩

/-- A scale above which no step is near to be lost. -/
def clear : Binary32 := finite false ⟨0x36B531A6, by decide⟩

/-- The largest scale with four steps in range, and the next one. -/
def loud : Binary32 := finite false ⟨0x7E7FFFFF, by decide⟩
def deafening : Binary32 := finite false ⟨0x7E800000, by decide⟩

theorem precedes_kept : lost.Precedes kept := precedes_of_rank rfl rfl

theorem precedes_deafening : loud.Precedes deafening := precedes_of_rank rfl rfl

theorem value?_lost : lost.value? = some (9895604 / 2 ^ 41) :=
  value?_of_units (n := 9895604 * 2 ^ 108) rfl (by norm_num)

theorem value?_kept : kept.value? = some (9895605 / 2 ^ 41) :=
  value?_of_units (n := 9895605 * 2 ^ 108) rfl (by norm_num)

theorem value?_clear : clear.value? = some (11874726 / 2 ^ 41) :=
  value?_of_units (n := 11874726 * 2 ^ 108) rfl (by norm_num)

theorem value?_loud : loud.value? = some (2 ^ 126 - 2 ^ 102) :=
  value?_of_units (n := (2 ^ 24 - 1) * 2 ^ 251) rfl (by norm_num)

theorem value?_deafening : deafening.value? = some (2 ^ 126) :=
  value?_of_units (n := 2 ^ 24 * 2 ^ 251) rfl (by norm_num)

theorem value?_hundredth : (ofRatio 1 100).value? = some (10737418 / 2 ^ 30) := by
  have shape : ofRatio 1 100 = finite false ⟨0x3C23D70A, by decide⟩ := by decide
  rw [shape]
  exact value?_of_units (n := 10737418 * 2 ^ 119) rfl (by norm_num)

section Scales

variable {scale : Binary32} {s : ℚ} {i : Nat}

theorem places_of_le_clear (small : scale ≤ clear) : Label.places scale = 6 :=
  if_pos (Binary32.lt_of_le_of_lt small (by decide))

variable (hs : scale.value? = some s)

include hs

theorem step_large (large : clear ≤ scale) :
    21 / 4 ≤ s * 10 ^ Label.places scale ∧ (10 : ℚ) ^ Label.places scale ≤ 10 ^ 6 := by
  have least := (le_iff value?_clear hs).mp large
  unfold Label.places
  split_ifs with tiny below
  · exact ⟨by linarith, le_rfl⟩
  · rw [lt_iff hs value?_hundredth] at tiny
    exact ⟨by linarith, by norm_num⟩
  · rw [lt_iff hs value?_one] at below
    exact ⟨by linarith, by norm_num⟩

theorem not_climbs_of_deafening_le (large : deafening ≤ scale) : ¬Climbs scale := by
  intro climbs
  have four : tickValue deafening 4 = infinite false := by decide
  have infinite : level (Label.places scale) (tickValue deafening 4) = ⊤ := by
    rw [four]
    rfl
  have top : ⊤ ≤ tickLevel scale 4 := by
    rw [← infinite]
    exact level_le_of_scale value?_deafening hs (by norm_num) large (by decide)
  exact absurd (climbs 4 (by decide)) (top_le_iff.mp top ▸ not_top_lt)

variable (positive : 0 < s)

include positive

theorem not_climbs_of_le_lost (small : scale ≤ lost) : ¬Climbs scale := by
  intro climbs
  have top : level 6 (tickValue lost ySteps) = (4 : ℕ) := by decide
  have most : tickLevel scale ySteps ≤ (4 : ℕ) := by
    rw [tickLevel, places_of_le_clear (Binary32.le_trans small (by decide)), ← top]
    exact level_le_of_scale hs value?_lost positive small le_rfl
  exact absurd ((climbs.le le_rfl).trans most) (by decide)

/-- From the first scale that keeps its steps to one that is clear of losing any, each step is one
unit of the last place. -/
theorem climbs_of_le_clear (least : kept ≤ scale) (small : scale ≤ clear) : Climbs scale := by
  have bottom : ∀ i ≤ ySteps, level 6 (tickValue kept i) = i := by decide
  have top : ∀ i ≤ ySteps, level 6 (tickValue clear i) = i := by decide
  have exact {i : Nat} (within : i ≤ ySteps) : tickLevel scale i = i := by
    rw [tickLevel, places_of_le_clear small]
    apply le_antisymm
    · rw [← top i within]
      exact level_le_of_scale hs value?_clear positive small within
    · rw [← bottom i within]
      exact level_le_of_scale value?_kept hs (by norm_num) least within
  intro i below
  rw [exact below.le, exact below]
  exact_mod_cast Nat.lt_succ_self i

theorem tickLevel_lt_top (small : scale ≤ loud) (below : i < ySteps) : tickLevel scale i < ⊤ := by
  have top : level (Label.places scale) (tickValue loud 4) < ⊤ := by
    have finite : (tickValue loud 4).isFinite = true := by decide
    obtain ⟨v, value⟩ := isFinite_iff.mp finite
    obtain ⟨negative, d, shape, -⟩ := eq_finite_of_value? value
    rw [shape]
    exact WithTop.coe_lt_top _
  apply lt_of_le_of_lt _ top
  apply level_le_level hs value?_loud positive (by norm_num) below.le (by decide)
  apply mul_le_mul ((le_iff hs value?_loud).mp small) (mod_cast Nat.le_of_lt_succ below)
    (Nat.cast_nonneg i) (by norm_num)

/-- Ticks are further apart than the two of them are off. -/
theorem tick_gap (large : clear ≤ scale) (below : i < ySteps) {v w : ℚ}
    (hv : (tickValue scale i).value? = some v) (hw : (tickValue scale (i + 1)).value? = some w) :
    1 < (w - v) * 10 ^ Label.places scale := by
  obtain ⟨wide, few⟩ := step_large hs large
  have nearV := abs_le.mp (tickValue_near hs positive.le below.le hv)
  have nearW := abs_le.mp (tickValue_near hs positive.le below hw)
  rw [Nat.cast_add_one] at nearW
  have apart : s / 5 - (s / 2 ^ 21 + 1 / 2 ^ 147) ≤ w - v := by linarith
  calc (1 : ℚ) < (s / 5 - (s / 2 ^ 21 + 1 / 2 ^ 147)) * 10 ^ Label.places scale := by linarith
    _ ≤ (w - v) * 10 ^ Label.places scale := mul_le_mul_of_nonneg_right apart (by positivity)

theorem climbs_of_clear_le (large : clear ≤ scale) (small : scale ≤ loud) : Climbs scale := by
  intro i below
  have inRange := tickLevel_lt_top hs positive small below
  rcases (unsigned_tickValue hs positive below.le).eq_infinite_or with infinite | ⟨d, first⟩
  · rw [tickLevel, infinite] at inRange
    exact absurd inRange (lt_irrefl _)
  rcases (unsigned_tickValue hs positive below).eq_infinite_or with infinite | ⟨e, second⟩
  · rw [tickLevel, tickLevel, first, infinite]
    exact WithTop.coe_lt_top _
  rw [tickLevel, tickLevel, first, second]
  apply FixedPlaces.level_lt_level rfl rfl
  exact tick_gap hs positive large below (by rw [first]; rfl) (by rw [second]; rfl)

theorem climbs_iff : Climbs scale ↔ 9 / 2000000 < s ∧ s < 2 ^ 126 := by
  have number := isNaN_of_value? hs
  rcases precedes_kept.le_or_le number with small | least
  · have few := (le_iff hs value?_lost).mp small
    exact iff_of_false (not_climbs_of_le_lost hs positive small) (by rintro ⟨above, -⟩; linarith)
  rcases precedes_deafening.le_or_le number with quiet | large
  · have above := (le_iff value?_kept hs).mp least
    have below := (le_iff hs value?_loud).mp quiet
    refine iff_of_true ?_ ⟨by linarith, by linarith⟩
    rcases le_or_lt number (isNaN_of_value? value?_clear) with small | large
    · exact climbs_of_le_clear hs positive least small
    · exact climbs_of_clear_le hs positive (le_of_lt large) quiet
  · have much := (le_iff value?_deafening hs).mp large
    exact iff_of_false (not_climbs_of_deafening_le hs large) (by rintro ⟨-, below⟩; linarith)

end Scales

/-- The labels of the magnitude axis differ from each other exactly if the loudest magnitude is
above nine halves of the last decimal place and below a quarter of the range. -/
theorem distinct_tickLabels_iff {values : List Binary32} {m : ℚ} (nonnegative : Nonnegative values)
    (loudest : IsLoudest values m) (positive : 0 < m) (area : Area) (sampleRate : Binary32)
    (fftSize : Nat) :
    let labels := (layout values area sampleRate fftSize).yTicks.map Tick.label
    labels.length = 6 ∧ (labels.Nodup ↔ 9 / 2000000 < m ∧ m < 2 ^ 126) := by
  obtain ⟨m', value, loudest'⟩ := Spectrum.isLoudest_loudest nonnegative
  obtain rfl := loudest.unique loudest'
  have scale : (scaleOf (Spectrum.loudest values)).value? = some m := by
    rw [Spectrum.value?_scaleOf value, if_pos positive]
  refine ⟨?_, (nodup_labels_iff area scale positive).trans (climbs_iff scale positive)⟩
  rw [List.length_map]
  exact (List.length_map _).trans List.length_range

/-- The quietest frames with labels that differ, for which each is one unit of the last place more
than the one below it. -/
theorem distinct_tickLabels_quietest :
    let values : List Binary32 := [zeroOf false, kept]
    let area : Area := ⟨0, 0, .ofNat 256, .ofNat 256⟩
    (Nonnegative values ∧ IsLoudest values (9895605 / 2 ^ 41) ∧ 0 < (9895605 / 2 ^ 41 : ℚ)) ∧
      ((layout values area 44100 8).yTicks.map Tick.label).Nodup := by
  intro values area
  have signs : ∀ x ∈ values, ∃ code, x = .finite false code := by
    intro x among
    simp only [values, List.mem_cons, List.not_mem_nil, or_false] at among
    rcases among with rfl | rfl <;> exact ⟨_, rfl⟩
  have nonnegative := Spectrum.nonnegative_of_sign signs
  have loudest : IsLoudest values (9895605 / 2 ^ 41) := by
    obtain ⟨m, value, loudest⟩ := Spectrum.isLoudest_loudest nonnegative
    have shown : Spectrum.loudest values = kept := by decide
    obtain rfl := Option.some.inj (value.symm.trans (shown ▸ value?_kept))
    exact loudest
  have positive : 0 < (9895605 / 2 ^ 41 : ℚ) := by norm_num
  refine ⟨⟨nonnegative, loudest, positive⟩, ?_⟩
  exact (distinct_tickLabels_iff nonnegative loudest positive area 44100 8).2.mpr
    ⟨by norm_num, by norm_num⟩

/-- Six decimal places are the most there are, so the ticks of quieter frames share labels. -/
theorem not_distinct_tickLabels_quiet :
    let quiet : Binary32 := .ofRatio 1 1000000
    let area : Area := ⟨0, 0, .ofNat 256, .ofNat 256⟩
    let labels := (layout [quiet] area 44100 2).yTicks.map Tick.label
    Payload.parse "0.000001" 1 = .ok [quiet] ∧ 0 < Spectrum.loudest [quiet] ∧
      labels = ["0.000000", "0.000000", "0.000000", "0.000001", "0.000001", "0.000001"] ∧
      ¬labels.Nodup := by
  intro quiet area labels
  have shown : labels =
      ["0.000000", "0.000000", "0.000000", "0.000001", "0.000001", "0.000001"] := by decide
  exact ⟨by decide +kernel, by decide, shown, by rw [shown]; decide⟩

end Chart

end SpectrumViewer
