import SpectrumViewer.Proofs.Number.Interpolation
import SpectrumViewer.Proofs.Number.Monotone
import SpectrumViewer.Waterfall.Colour

set_option autoImplicit false

/-!
The ramp goes through seven colours. Between two of them every channel moves from the one to the
other and never back, and neighbouring values have colours that differ by one level at most
(`follows_landmarks`), so that nothing is left out and nothing jumps, also where one segment ends
and the next begins.
-/

namespace SpectrumViewer

open BinaryFormat (single)

namespace Binary32

variable {x y : Binary32} {p q : ℚ}

theorem toNat_roundByte (value : x.value? = some q) :
    x.roundByte.toNat = min ⌊q + 1 / 2⌋₊ 255 := by
  obtain ⟨s, c, rfl, rfl⟩ := eq_finite_of_value? value
  cases s with
  | false =>
    have half : (signed false (single.units c) / one : ℚ) + 1 / 2 =
        (2 * single.units c + one : Nat) / (2 * one : Nat) := by
      have unit := one_pos.ne'
      rw [signed_false, Int.cast_natCast]
      push_cast
      field_simp
    rw [half, Nat.floor_div_eq_div]
    exact UInt8.toNat_ofNat_of_lt (Nat.lt_succ_of_le (Nat.min_le_right _ _))
  | true =>
    have below : (signed true (single.units c) / one : ℚ) + 1 / 2 < 1 := by
      have nonneg := units_div_nonneg c
      rw [signed_true, Int.cast_neg, Int.cast_natCast, neg_div]
      linarith
    rw [Nat.floor_eq_zero.mpr below]
    rfl

theorem roundByte_le_roundByte (h : x ≤ y) : x.roundByte ≤ y.roundByte := by
  rw [UInt8.le_iff_toNat_le]
  rcases le_iff_cases.mp h with ⟨rfl, -⟩ | ⟨-, rfl⟩ | ⟨p, q, valueX, valueY, le⟩
  · exact Nat.zero_le _
  · exact Nat.le_of_lt_succ x.roundByte.toNat_lt
  · rw [toNat_roundByte valueX, toNat_roundByte valueY]
    exact min_le_min (Nat.floor_mono (by linarith)) le_rfl

theorem roundByte_near (hx : x.value? = some p) (hy : y.value? = some q) (nonneg : 0 ≤ q)
    (near : p ≤ q + 1) : x.roundByte.toNat ≤ y.roundByte.toNat + 1 := by
  rw [toNat_roundByte hx, toNat_roundByte hy]
  have next : ⌊p + 1 / 2⌋₊ ≤ ⌊q + 1 / 2⌋₊ + 1 := by
    rw [← Nat.floor_add_one (by linarith)]
    exact Nat.floor_mono (by linarith)
  omega

theorem Precedes.sub_le (h : x.Precedes y) (hx : x.value? = some p) (hy : y.value? = some q)
    (nonneg : 0 ≤ p) (small : q ≤ 1) : q - p ≤ 1 / 2 ^ 23 := by
  have less : p < q := (lt_iff hx hy).mp h.1
  obtain ⟨c, rfl⟩ := Within.eq_finite_false ⟨q, hy, le_rfl, le_rfl⟩ (nonneg.trans_lt less)
  obtain rfl := Option.some.inj hy
  rw [signed_false, Int.cast_natCast] at less small ⊢
  have positive : 0 < c.val := by
    rw [← BinaryFormat.units_pos_iff (f := single)]
    have above : (0 : ℚ) < single.units c / one := nonneg.trans_lt less
    rw [div_pos_iff_of_pos_right one_pos] at above
    exact_mod_cast above
  have step : single.units (c - 1) < single.units c := single.units_strictMono (by omega)
  have reached : single.units (c - 1) / one ≤ p := by
    have before : finite false ⟨c - 1, by omega⟩ < finite false c := by
      rw [lt_iff rfl rfl, div_lt_div_iff_of_pos_right one_pos, signed_false, signed_false]
      exact_mod_cast step
    exact (le_iff rfl hx).mp (h.2 _ before)
  have difference : (single.units c - single.units (c - 1) : ℚ) / one ≤ 1 / 2 ^ 23 := by
    rw [div_le_iff₀ one_pos, ← Nat.cast_sub step.le]
    have below : single.units c ≤ one := by
      rw [div_le_one one_pos] at small
      exact_mod_cast small
    rcases Nat.lt_or_ge single.hidden (single.units c) with large | tiny
    · have shorter := (BinaryFormat.hidden_mul_step_lt large).trans_le below
      have : (2 ^ 23 : ℚ) * (single.units c - single.units (c - 1) : Nat) < one :=
        mod_cast shorter
      linarith
    · have : ((single.units c - single.units (c - 1) : Nat) : ℚ) ≤ single.hidden :=
        mod_cast (Nat.sub_le _ _).trans tiny
      refine this.trans ?_
      rw [cast_one_eq]
      norm_num [BinaryFormat.hidden]
  rw [sub_div] at difference
  linarith

end Binary32

/-- On the way from one level to another, the first place is not passed before the second. -/
def Toward (start finish first second : UInt8) : Prop :=
  start ≤ first ∧ first ≤ second ∧ second ≤ finish ∨
    finish ≤ second ∧ second ≤ first ∧ first ≤ start

/-- Levels at most one apart. -/
def Near (first second : UInt8) : Prop :=
  first.toNat ≤ second.toNat + 1 ∧ second.toNat ≤ first.toNat + 1

namespace Colour

/-- On the way from one colour to another no channel goes back from the first place to the
second. -/
structure Toward (start finish first second : Colour) : Prop where
  red : SpectrumViewer.Toward start.red finish.red first.red second.red
  green : SpectrumViewer.Toward start.green finish.green first.green second.green
  blue : SpectrumViewer.Toward start.blue finish.blue first.blue second.blue

/-- Colours whose channels are at most one level apart. -/
structure Near (first second : Colour) : Prop where
  red : SpectrumViewer.Near first.red second.red
  green : SpectrumViewer.Near first.green second.green
  blue : SpectrumViewer.Near first.blue second.blue

end Colour

namespace Ramp

open Binary32

section Channel

variable {a b : UInt8} {x y part part' : Binary32} {t u : ℚ}

theorem value?_level (a : UInt8) : (ofNat a.toNat).value? = some (a.toNat : ℚ) :=
  value?_ofNat (representable_natCast (a.toNat_lt.le.trans (by decide)))

theorem roundByte_of_level (value : x.value? = some (a.toNat : ℚ)) : x.roundByte = a := by
  have whole : ⌊(a.toNat : ℚ) + 1 / 2⌋₊ = a.toNat := by
    rw [Nat.floor_eq_iff (by positivity)]
    constructor <;> linarith
  have least : a.toNat ≤ 255 := Nat.le_of_lt_succ a.toNat_lt
  rw [← UInt8.toNat_inj, toNat_roundByte value, whole, Nat.min_eq_left least]

theorem level_le (a : UInt8) : (a.toNat : ℚ) ≤ 255 := mod_cast Nat.le_of_lt_succ a.toNat_lt

theorem abs_rise_le (a b : UInt8) : |(b.toNat : ℚ) - a.toNat| ≤ 2 ^ 8 := by
  have start := level_le a
  have finish := level_le b
  have startNonneg : (0 : ℚ) ≤ a.toNat := Nat.cast_nonneg _
  have finishNonneg : (0 : ℚ) ≤ b.toNat := Nat.cast_nonneg _
  rw [abs_le]
  constructor <;> linarith

theorem value?_rise (a b : UInt8) :
    (ofNat b.toNat - ofNat a.toNat).value? = some ((b.toNat : ℚ) - a.toNat) := by
  refine (rounds_sub (value?_level b) (value?_level a)).exact ?_
  have small {c d : UInt8} (le : c.toNat ≤ d.toNat) : Representable ((d.toNat : ℚ) - c.toNat) := by
    rw [← Nat.cast_sub le]
    have := d.toNat_lt
    exact representable_natCast (by omega)
  rcases Nat.le_total a.toNat b.toNat with up | down
  · exact small up
  · rw [← neg_sub]
    exact (small down).neg

theorem channel_le_channel (hx : part.value? = some t) (hy : part'.value? = some u)
    (le : ((b.toNat : ℚ) - a.toNat) * t ≤ (b.toNat - a.toNat) * u) :
    channel (ofNat a.toNat) (ofNat b.toNat) part ≤
      channel (ofNat a.toNat) (ofNat b.toNat) part' := by
  apply roundByte_le_roundByte
  apply add_le_add_left (isFinite_of_value? (value?_level a))
  exact (isRounding_mul (value?_rise a b) hx).le (isRounding_mul (value?_rise a b) hy) le

theorem channel_zero (h : part.value? = some 0) :
    channel (ofNat a.toNat) (ofNat b.toNat) part = a := by
  have shift : ((ofNat b.toNat - ofNat a.toNat) * part).value? = some 0 :=
    (rounds_mul (value?_rise a b) h).exact_of_eq (mul_zero _) representable_zero
  exact roundByte_of_level ((rounds_add (value?_level a) shift).exact_of_eq (add_zero _)
    ⟨_, value?_level a⟩)

theorem channel_one (h : part.value? = some 1) :
    channel (ofNat a.toNat) (ofNat b.toNat) part = b := by
  have shift : ((ofNat b.toNat - ofNat a.toNat) * part).value? = some ((b.toNat : ℚ) - a.toNat) :=
    (rounds_mul (value?_rise a b) h).exact_of_eq (mul_one _) ⟨_, value?_rise a b⟩
  exact roundByte_of_level ((rounds_add (value?_level a) shift).exact_of_eq
    (add_sub_cancel _ _) ⟨_, value?_level b⟩)

theorem toward_channel (hx : part.value? = some t) (hy : part'.value? = some u) (nonneg : 0 ≤ t)
    (le : t ≤ u) (small : u ≤ 1) :
    Toward a b (channel (ofNat a.toNat) (ofNat b.toNat) part)
      (channel (ofNat a.toNat) (ofNat b.toNat) part') := by
  have start : channel (ofNat a.toNat) (ofNat b.toNat) 0 = a := channel_zero value?_zero
  have finish : channel (ofNat a.toNat) (ofNat b.toNat) 1 = b := channel_one value?_one
  rcases Nat.le_total a.toNat b.toNat with up | down
  · have rise : (0 : ℚ) ≤ b.toNat - a.toNat := sub_nonneg.mpr (mod_cast up)
    have first := channel_le_channel (a := a) (b := b) value?_zero hx
      (mul_le_mul_of_nonneg_left nonneg rise)
    have last := channel_le_channel (a := a) (b := b) hy value?_one
      (mul_le_mul_of_nonneg_left small rise)
    rw [start] at first
    rw [finish] at last
    exact Or.inl ⟨first, channel_le_channel hx hy (mul_le_mul_of_nonneg_left le rise), last⟩
  · have fall : (b.toNat - a.toNat : ℚ) ≤ 0 := sub_nonpos.mpr (mod_cast down)
    have first := channel_le_channel (a := a) (b := b) hx value?_zero
      (mul_le_mul_of_nonpos_left nonneg fall)
    have last := channel_le_channel (a := a) (b := b) value?_one hy
      (mul_le_mul_of_nonpos_left small fall)
    rw [start] at first
    rw [finish] at last
    exact Or.inr ⟨last, channel_le_channel hy hx (mul_le_mul_of_nonpos_left le fall), first⟩

/-- Before it is rounded to a level, a channel is close to the exact place between its ends. -/
theorem exists_channel (hx : part.value? = some t) (nonneg : 0 ≤ t) (small : t ≤ 1) :
    ∃ v, (ofNat a.toNat + (ofNat b.toNat - ofNat a.toNat) * part).value? = some v ∧ 0 ≤ v ∧
      |v - (a.toNat + (b.toNat - a.toNat) * t)| ≤ 1 / 2 ^ 12 := by
  have first := level_le a
  have second := level_le b
  have firstNonneg : (0 : ℚ) ≤ a.toNat := Nat.cast_nonneg _
  have secondNonneg : (0 : ℚ) ≤ b.toNat := Nat.cast_nonneg _
  have above : -(a.toNat : ℚ) ≤ (b.toNat - a.toNat) * t := by nlinarith
  have below : (b.toNat - a.toNat) * t ≤ (b.toNat : ℚ) := by nlinarith
  have limit : Representable (2 ^ 9) := representable_two_pow (by decide)
  have size : |((b.toNat : ℚ) - a.toNat) * t| ≤ 2 ^ 8 := by
    rw [abs_le]
    constructor <;> linarith
  obtain ⟨m, product, near⟩ := (isRounding_mul (value?_rise a b) hx).exists_near
    (size.trans_lt (by norm_num))
  have least : -(a.toNat : ℚ) ≤ m :=
    ((rounds_mul (value?_rise a b) hx _ _ (Representable.neg ⟨_, value?_level a⟩)
      ⟨_, value?_level b⟩ above below).eq product).1
  have most : m ≤ b.toNat :=
    ((rounds_mul (value?_rise a b) hx _ _ (Representable.neg ⟨_, value?_level a⟩)
      ⟨_, value?_level b⟩ above below).eq product).2
  have sumSize : |(a.toNat : ℚ) + m| ≤ 2 ^ 9 := by
    rw [abs_le]
    constructor <;> linarith
  obtain ⟨v, value, near'⟩ := (isRounding_add (value?_level a) product).exists_near
    (sumSize.trans_lt (by norm_num))
  refine ⟨v, value, ?_, ?_⟩
  · exact ((rounds_add (value?_level a) product 0 _ representable_zero limit (by linarith)
      (by linarith)).eq value).1
  · have errorM := abs_le.mp near
    have errorV := abs_le.mp near'
    rw [abs_le]
    constructor <;> linarith

theorem near_channel (hx : part.value? = some t) (hy : part'.value? = some u)
    (insideT : 0 ≤ t ∧ t ≤ 1) (insideU : 0 ≤ u ∧ u ≤ 1) (close : |t - u| ≤ 1 / 2 ^ 9) :
    Near (channel (ofNat a.toNat) (ofNat b.toNat) part)
      (channel (ofNat a.toNat) (ofNat b.toNat) part') := by
  obtain ⟨v, valueX, nonnegV, nearV⟩ := exists_channel (a := a) (b := b) hx insideT.1 insideT.2
  obtain ⟨w, valueY, nonnegW, nearW⟩ := exists_channel (a := a) (b := b) hy insideU.1 insideU.2
  have apart : |((b.toNat : ℚ) - a.toNat) * t - (b.toNat - a.toNat) * u| ≤ 1 / 2 := by
    rw [← mul_sub, abs_mul]
    calc |(b.toNat : ℚ) - a.toNat| * |t - u| ≤ 2 ^ 8 * (1 / 2 ^ 9) :=
          mul_le_mul (abs_rise_le a b) close (abs_nonneg _) (by norm_num)
      _ = 1 / 2 := by norm_num
  have errorV := abs_le.mp nearV
  have errorW := abs_le.mp nearW
  have difference := abs_le.mp apart
  constructor
  · exact roundByte_near valueX valueY nonnegW (by linarith)
  · exact roundByte_near valueY valueX nonnegV (by linarith)

end Channel

/-- A place on the ramp and the colour that it goes through there, as a stop of the ramp. -/
def stopOf (landmark : Binary32 × Colour) : RampStop :=
  ⟨landmark.1, .ofNat landmark.2.red.toNat, .ofNat landmark.2.green.toNat,
    .ofNat landmark.2.blue.toNat⟩

theorem blend_stopOf (first second : Binary32 × Colour) (x : Binary32) :
    blend (stopOf first) (stopOf second) x =
      let part := (x - first.1) / (second.1 - first.1)
      ⟨channel (.ofNat first.2.red.toNat) (.ofNat second.2.red.toNat) part,
        channel (.ofNat first.2.green.toNat) (.ofNat second.2.green.toNat) part,
        channel (.ofNat first.2.blue.toNat) (.ofNat second.2.blue.toNat) part⟩ := by
  rw [blend, stopOf, stopOf]

/-- The places of two landmarks as numbers between zero and one that are not too close. -/
structure Segment (first second : Binary32 × Colour) (p q : ℚ) : Prop where
  start : first.1.value? = some p
  finish : second.1.value? = some q
  nonneg : 0 ≤ p
  small : q ≤ 1
  wide : 1 / 2 ^ 5 ≤ q - p

section Segment

variable {first second : Binary32 × Colour} {x y : Binary32} {p q v w : ℚ}
  (segment : Segment first second p q)

include segment

theorem exists_extent :
    (∃ e, (second.1 - first.1).value? = some e ∧ 1 / 2 ^ 5 ≤ e) ∧
      (x.value? = some p → ((x - first.1) / (second.1 - first.1)).value? = some 0) ∧
      (x.value? = some q → ((x - first.1) / (second.1 - first.1)).value? = some 1) := by
  obtain ⟨e, extent, above, -⟩ := rounds_sub segment.finish segment.start _ _
    (representable_half_pow (k := 5) (by decide)) representable_one segment.wide
    (by linarith [segment.small, segment.nonneg])
  have nonzero : e ≠ 0 := by
    rintro rfl
    norm_num at above
  refine ⟨⟨e, extent, above⟩, fun value => ?_, fun value => ?_⟩
  · have none : (x - first.1).value? = some 0 :=
      (rounds_sub value segment.start).exact_of_eq (sub_self p) representable_zero
    exact (rounds_div none extent nonzero).exact_of_eq (zero_div e) representable_zero
  · have all : (x - first.1).value? = some e := by
      have within := rounds_sub value segment.start
      obtain ⟨d, difference, -, -⟩ := within _ _ representable_zero representable_one
        (by linarith [segment.wide]) (by linarith [segment.small, segment.nonneg])
      have same := isRounding_sub segment.finish segment.start
      have other := isRounding_sub value segment.start
      rw [difference, le_antisymm (other.nearest.mono same.nearest difference extent le_rfl)
        (same.nearest.mono other.nearest extent difference le_rfl)]
    exact (rounds_div all extent nonzero).exact_of_eq (div_self nonzero) representable_one

theorem exists_part {e : ℚ} (he : (second.1 - first.1).value? = some e) (large : 1 / 2 ^ 5 ≤ e)
    (hx : x.value? = some v) (above : p ≤ v) (below : v ≤ q) :
    ∃ t, ((x - first.1) / (second.1 - first.1)).value? = some t ∧ (0 ≤ t ∧ t ≤ 1) ∧
      |t - (v - p) / e| ≤ 1 / 2 ^ 18 := by
  have positive : 0 < e := lt_of_lt_of_le (by norm_num) large
  have size : |v - p| ≤ 1 := by
    rw [abs_le]
    constructor <;> linarith [segment.small, segment.nonneg]
  have rounding := isRounding_sub hx segment.start
  obtain ⟨d, difference, near⟩ := rounding.exists_near (size.trans_lt (by norm_num))
  have nonneg : 0 ≤ d := ((rounds_sub hx segment.start 0 1 representable_zero representable_one
    (by linarith) (abs_le.mp size).2).eq difference).1
  have shorter : d ≤ e := rounding.nearest.mono
    (isRounding_sub segment.finish segment.start).nearest difference he (by linarith)
  have proper : d / e ≤ 1 := div_le_one_of_le₀ shorter positive.le
  have proportion : 0 ≤ d / e := div_nonneg nonneg positive.le
  obtain ⟨t, quotient, inside⟩ := rounds_div difference he positive.ne' 0 1 representable_zero
    representable_one proportion proper
  refine ⟨t, quotient, inside, ?_⟩
  have errorT := (isRounding_div difference he positive.ne').nearest.error quotient
  have errorD : |d / e - (v - p) / e| ≤ 2 ^ 5 * (1 / 2 ^ 24 + 1 / 2 ^ 150) := by
    rw [← sub_div, abs_div, abs_of_pos positive, div_le_iff₀ positive]
    have budget : |d - (v - p)| ≤ 1 / 2 ^ 24 + 1 / 2 ^ 150 := by linarith
    nlinarith
  rw [abs_of_nonneg proportion] at errorT
  have boundsT := abs_le.mp errorT
  have boundsD := abs_le.mp errorD
  rw [abs_le]
  constructor <;> linarith

/-- On a segment the channels move from the first of its colours to the second. -/
theorem toward_blend (hx : x.value? = some v) (hy : y.value? = some w) (above : p ≤ v)
    (le : v ≤ w) (below : w ≤ q) :
    Colour.Toward first.2 second.2 (blend (stopOf first) (stopOf second) x)
      (blend (stopOf first) (stopOf second) y) := by
  obtain ⟨⟨e, extent, large⟩, -⟩ := exists_extent (x := x) segment
  obtain ⟨t, partX, insideT, -⟩ := exists_part segment extent large hx above (le.trans below)
  obtain ⟨u, partY, insideU, -⟩ := exists_part segment extent large hy (above.trans le) below
  have before : x - first.1 ≤ y - first.1 :=
    (isRounding_sub hx segment.start).le (isRounding_sub hy segment.start) (by linarith)
  have ordered : t ≤ u := (le_iff partX partY).mp
    (div_le_div_right extent (lt_of_lt_of_le (by norm_num) large) before)
  rw [blend_stopOf, blend_stopOf]
  constructor <;> dsimp only <;> exact toward_channel partX partY insideT.1 ordered insideU.2

theorem near_blend (hx : x.value? = some v) (hy : y.value? = some w) (above : p ≤ v)
    (le : v ≤ w) (below : w ≤ q) (close : w - v ≤ 1 / 2 ^ 23) :
    Colour.Near (blend (stopOf first) (stopOf second) x)
      (blend (stopOf first) (stopOf second) y) := by
  obtain ⟨⟨e, extent, large⟩, -⟩ := exists_extent (x := x) segment
  obtain ⟨t, partX, insideT, nearT⟩ := exists_part segment extent large hx above (le.trans below)
  obtain ⟨u, partY, insideU, nearU⟩ := exists_part segment extent large hy (above.trans le) below
  have positive : 0 < e := lt_of_lt_of_le (by norm_num) large
  have apart : |(v - p) / e - (w - p) / e| ≤ 1 / 2 ^ 18 := by
    rw [← sub_div, abs_div, abs_of_pos positive, div_le_iff₀ positive, abs_of_nonpos (by linarith)]
    linarith
  have boundsT := abs_le.mp nearT
  have boundsU := abs_le.mp nearU
  have bounds := abs_le.mp apart
  have together : |t - u| ≤ 1 / 2 ^ 9 := by
    rw [abs_le]
    constructor <;> linarith
  rw [blend_stopOf, blend_stopOf]
  constructor <;> dsimp only <;> exact near_channel partX partY insideT insideU together

theorem blend_finish (hx : x.value? = some q) :
    blend (stopOf first) (stopOf second) x = second.2 := by
  obtain ⟨-, -, whole⟩ := exists_extent (x := x) segment
  have part := whole hx
  rw [blend_stopOf]
  dsimp only
  rw [channel_one part, channel_one part, channel_one part]

end Segment

/-- The places that the ramp is named for, and their colours. -/
def landmarks : List (Binary32 × Colour) :=
  [(0, .black), (.ofRatio 2 10, ⟨0, 0, 255⟩), (.ofRatio 4 10, ⟨0, 255, 255⟩),
    (.ofRatio 6 10, ⟨0, 255, 0⟩), (.ofRatio 8 10, ⟨255, 255, 0⟩), (.ofRatio 95 100, ⟨255, 0, 0⟩),
    (1, .white)]

/-- Each landmark with the next one. -/
def segments : List ((Binary32 × Colour) × (Binary32 × Colour)) := landmarks.zip landmarks.tail

theorem stops_eq : stops = landmarks.map stopOf := by decide

/-- The places of the landmarks as numbers, each a little off the decimal that it is given by. -/
theorem value?_landmarks : landmarks.map (fun l => l.1.value?) =
    [some 0, some (13421773 / 2 ^ 26), some (13421773 / 2 ^ 25), some (10066330 / 2 ^ 24),
      some (13421773 / 2 ^ 24), some (15938355 / 2 ^ 24), some 1] := by decide +kernel

theorem exists_segment_of_mem {s : (Binary32 × Colour) × (Binary32 × Colour)} (among : s ∈ segments) :
    ∃ p q, Segment s.1 s.2 p q := by
  have values := value?_landmarks
  simp only [landmarks, List.map_cons, List.map_nil, List.cons.injEq, and_true] at values
  obtain ⟨v₀, v₁, v₂, v₃, v₄, v₅, v₆⟩ := values
  simp only [segments, landmarks, List.tail_cons, List.zip_cons_cons, List.zip_nil_right,
    List.mem_cons, List.not_mem_nil, or_false] at among
  rcases among with rfl | rfl | rfl | rfl | rfl | rfl
  · exact ⟨_, _, v₀, v₁, by norm_num, by norm_num, by norm_num⟩
  · exact ⟨_, _, v₁, v₂, by norm_num, by norm_num, by norm_num⟩
  · exact ⟨_, _, v₂, v₃, by norm_num, by norm_num, by norm_num⟩
  · exact ⟨_, _, v₃, v₄, by norm_num, by norm_num, by norm_num⟩
  · exact ⟨_, _, v₄, v₅, by norm_num, by norm_num, by norm_num⟩
  · exact ⟨_, _, v₅, v₆, by norm_num, by norm_num, by norm_num⟩

theorem isFinite_landmark : ∀ l ∈ landmarks, l.1.isFinite = true := by decide

theorem colour_landmark : ∀ l ∈ landmarks, colour l.1 = l.2 := by decide

section Colour

variable {x y : Binary32}

theorem colourOn_eq_blend {l : List (Binary32 × Colour)}
    (sorted : (l.map Prod.fst).Pairwise (· ≤ ·)) (limit : ∀ m ∈ l, m.1 ≤ 1)
    {first second : Binary32 × Colour} (among : (first, second) ∈ l.zip l.tail)
    (above : first.1 ≤ x) (below : x < second.1) :
    colourOn x (l.map stopOf) = blend (stopOf first) (stopOf second) x := by
  induction l with
  | nil => cases among
  | cons a rest ih =>
    cases rest with
    | nil => cases among
    | cons b rest =>
      rw [List.map_cons, List.map_cons, colourOn]
      rw [List.tail_cons, List.zip_cons_cons, List.mem_cons] at among
      rw [List.map_cons, List.pairwise_cons] at sorted
      rcases among with same | later
      · obtain ⟨rfl, rfl⟩ := Prod.mk.inj same
        exact if_pos (Or.inl below)
      · have member := (List.of_mem_zip later).1
        have reached : b.1 ≤ x := by
          rcases List.mem_cons.mp member with rfl | further
          · exact above
          · rw [List.map_cons, List.pairwise_cons] at sorted
            exact le_trans (sorted.2.1 _ (List.mem_map_of_mem further)) above
        have last : second.1 ≤ 1 :=
          limit second (List.mem_cons_of_mem a (List.mem_cons_of_mem b (List.of_mem_zip later).2))
        have inside : b.1 < 1 := lt_of_lt_of_le (lt_of_le_of_lt reached below) last
        refine (if_neg (not_or.mpr
          ⟨not_lt_of_le reached, fun beyond => not_lt_of_le beyond inside⟩)).trans ?_
        exact ih sorted.2 (fun m inner => limit m (List.mem_cons_of_mem a inner)) later

theorem colour_of_le_zero (h : x.isNaN = true ∨ x ≤ 0) : colour x = .black := by
  have zero : colourOn 0 stops = .black := by decide
  rcases h with nan | le
  · rw [colour, if_pos nan, zero]
  · have number := (isNaN_of_le le).1
    rw [colour, number, if_neg Bool.false_ne_true, clamp]
    by_cases negative : x < 0
    · rw [if_pos negative, zero]
    · have least : 0 ≤ x := (le_or_lt rfl number).resolve_right negative
      obtain ⟨v, value, above, below⟩ := exists_value?_between value?_zero value?_zero least le
      obtain rfl := le_antisymm below above
      obtain ⟨s, rfl⟩ := eq_zeroOf_of_value? value
      cases s <;> decide

theorem colour_of_one_le (h : 1 ≤ x) : colour x = .white := by
  have one : colourOn 1 stops = .white := by decide
  have number := (isNaN_of_le h).2
  have positive : ¬x < 0 := by
    intro negative
    exact absurd (lt_of_le_of_lt h negative) (by decide)
  rw [colour, number, if_neg Bool.false_ne_true, clamp, if_neg positive]
  by_cases beyond : 1 < x
  · rw [if_pos beyond, one]
  · have most : x ≤ 1 := (le_or_lt number rfl).resolve_right beyond
    obtain ⟨v, value, above, below⟩ := exists_value?_between value?_one value?_one h most
    obtain rfl := le_antisymm below above
    rw [if_neg beyond, eq_of_value? value value?_one zero_lt_one, one]

theorem colour_eq_blend {s : (Binary32 × Colour) × (Binary32 × Colour)} (among : s ∈ segments)
    (above : s.1.1 ≤ x) (below : x ≤ s.2.1) :
    colour x = blend (stopOf s.1) (stopOf s.2) x := by
  obtain ⟨p, q, segment⟩ := exists_segment_of_mem among
  obtain ⟨v, value, least, most⟩ :=
    exists_value?_between segment.start segment.finish above below
  rcases most.eq_or_lt with rfl | inside
  · have positive : 0 < v := by linarith [segment.nonneg, segment.wide]
    obtain rfl := eq_of_value? value segment.finish positive
    have landmark : s.2 ∈ landmarks := List.mem_of_mem_tail (List.of_mem_zip among).2
    rw [blend_finish segment value, colour_landmark _ landmark]
  · have nonneg : ¬x < 0 :=
      not_lt_of_le ((le_iff value?_zero value).mpr (segment.nonneg.trans least))
    have small : ¬1 < x := not_lt_of_le ((le_iff value value?_one).mpr (most.trans segment.small))
    rw [colour, isNaN_of_value? value, if_neg Bool.false_ne_true, clamp, if_neg nonneg,
      if_neg small, stops_eq]
    exact colourOn_eq_blend (by decide) (by decide) among above
      ((lt_iff value segment.finish).mpr inside)

theorem exists_mem_zip {a : Binary32 × Colour} {l : List (Binary32 × Colour)}
    (numbers : ∀ b ∈ l, b.1.isNaN = false) (above : a.1 ≤ x) (beyond : ∃ b ∈ l, x < b.1) :
    ∃ s ∈ (a :: l).zip l, s.1.1 ≤ x ∧ x < s.2.1 := by
  induction l generalizing a with
  | nil =>
    obtain ⟨b, none, -⟩ := beyond
    cases none
  | cons c rest ih =>
    rcases le_or_lt (numbers c List.mem_cons_self) (isNaN_of_le above).2 with reached | below
    · obtain ⟨b, among, less⟩ := beyond
      have later : b ∈ rest := by
        rcases List.mem_cons.mp among with rfl | later
        · exact absurd less (not_lt_of_le reached)
        · exact later
      obtain ⟨s, member, inside⟩ :=
        ih (fun b inner => numbers b (List.mem_cons_of_mem c inner)) reached ⟨b, later, less⟩
      exact ⟨s, List.mem_cons_of_mem _ member, inside⟩
    · exact ⟨(a, c), List.mem_cons_self, above, below⟩

theorem near_refl (c : Colour) : c.Near c :=
  ⟨⟨Nat.le_succ _, Nat.le_succ _⟩, ⟨Nat.le_succ _, Nat.le_succ _⟩, ⟨Nat.le_succ _, Nat.le_succ _⟩⟩

/-- Two neighbouring values lie on one segment, the second one perhaps at its end, or both on the
same side of the ramp. -/
theorem near_of_precedes (h : x.Precedes y) : (colour x).Near (colour y) := by
  obtain ⟨numberX, numberY⟩ := isNaN_of_le (le_of_lt h.1)
  rcases le_or_lt numberY (isNaN_of_value? value?_zero) with low | positive
  · rw [colour_of_le_zero (Or.inr low), colour_of_le_zero (Or.inr (le_trans (le_of_lt h.1) low))]
    exact near_refl _
  rcases le_or_lt (isNaN_of_value? value?_one) numberX with high | small
  · rw [colour_of_one_le high, colour_of_one_le (le_trans high (le_of_lt h.1))]
    exact near_refl _
  have nonneg : 0 ≤ x := h.2 0 positive
  obtain ⟨s, among, above, below⟩ := exists_mem_zip (a := (0, .black)) (l := landmarks.tail)
    (by decide) nonneg ⟨(1, .white), by decide, small⟩
  obtain ⟨p, q, segment⟩ := exists_segment_of_mem among
  have inside : y ≤ s.2.1 :=
    (le_or_lt numberY (isNaN_of_value? segment.finish)).resolve_right fun beyond =>
      not_lt_of_le (h.2 _ beyond) below
  obtain ⟨v, valueX, leastX, mostX⟩ :=
    exists_value?_between segment.start segment.finish above (le_of_lt below)
  obtain ⟨w, valueY, leastY, mostY⟩ := exists_value?_between segment.start segment.finish
    (le_trans above (le_of_lt h.1)) inside
  rw [colour_eq_blend among above (le_of_lt below),
    colour_eq_blend among (le_trans above (le_of_lt h.1)) inside]
  apply near_blend segment valueX valueY leastX _ mostY
  · exact h.sub_le valueX valueY (segment.nonneg.trans leastX) (mostY.trans segment.small)
  · exact ((lt_iff valueX valueY).mp h.1).le

end Colour

/-- The ramp is black up to the first landmark and for what is no number, and white from the last
one on. It goes through every landmark. From each to the next no channel goes back, and none is
off by more than one level just below a landmark, nor between any two neighbouring values. -/
structure Follows (ramp : Binary32 → Colour) : Prop where
  below : ∀ x, x.isNaN = true ∨ x ≤ 0 → ramp x = .black
  above : ∀ x, 1 ≤ x → ramp x = .white
  landmark : ∀ l ∈ landmarks, ramp l.1 = l.2
  toward : ∀ s ∈ segments, ∀ x y, s.1.1 ≤ x → x ≤ y → y < s.2.1 →
    Colour.Toward s.1.2 s.2.2 (ramp x) (ramp y)
  beneath : ∀ l ∈ landmarks, (∃ x : Binary32, x.Precedes l.1) ∧
    ∀ x : Binary32, x.Precedes l.1 → (ramp x).Near l.2
  smooth : ∀ x y : Binary32, x.Precedes y → (ramp x).Near (ramp y)

/-- The ramp follows its landmarks, over all values there are. -/
theorem follows_landmarks : Follows colour where
  below _ := colour_of_le_zero
  above _ := colour_of_one_le
  landmark := colour_landmark
  toward s among x y above le less := by
    obtain ⟨p, q, segment⟩ := exists_segment_of_mem among
    have below := le_of_lt less
    obtain ⟨v, valueX, least, -⟩ :=
      exists_value?_between segment.start segment.finish above (le_trans le below)
    obtain ⟨w, valueY, -, most⟩ :=
      exists_value?_between segment.start segment.finish (le_trans above le) below
    rw [colour_eq_blend among above (le_trans le below),
      colour_eq_blend among (le_trans above le) below]
    exact toward_blend segment valueX valueY least ((le_iff valueX valueY).mp le) most
  beneath l among := ⟨exists_precedes (isFinite_landmark l among), fun x before =>
    colour_landmark l among ▸ near_of_precedes before⟩
  smooth _ _ := near_of_precedes

end Ramp

end SpectrumViewer
