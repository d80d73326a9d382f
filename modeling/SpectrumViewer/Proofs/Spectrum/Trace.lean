import SpectrumViewer.Proofs.Number.Monotone
import SpectrumViewer.Proofs.Spectrum.Layout

set_option autoImplicit false

/-!
The trace keeps the order of the magnitudes. Carrying a place over to the screen is monotone, each
of its roundings included, so a louder bin never stands lower than a quieter one and a later bin
never further left (`ordered_layout`). Neither order asks for results in range: a product that
overflows puts its bin above all others.
-/

namespace SpectrumViewer

open Binary32
open Spectrum (Nonnegative scaleOf)

/-- The edges of an area on a screen, which may be as narrow or as flat as a line. -/
structure Area.Bounded (area : Area) (l t r b : ℚ) : Prop where
  left : area.left.value? = some l
  top : area.top.value? = some t
  right : area.right.value? = some r
  bottom : area.bottom.value? = some b
  wide : l ≤ r
  tall : t ≤ b
  small : (|l| ≤ 2 ^ 15 ∧ |r| ≤ 2 ^ 15) ∧ |t| ≤ 2 ^ 15 ∧ |b| ≤ 2 ^ 15

namespace Chart

/-- One point for each magnitude, in the order of the bins, so that `zip` joins a magnitude and its
point. The points begin at the left edge and go on rightwards, louder bins stand no lower than
quieter ones, silent ones at the lower edge, and none stands higher than the loudest ones. -/
structure Ordered (points : List Point) (values : List Binary32) (left bottom : ℚ) : Prop where
  length : points.length = values.length
  numbers : ∀ p ∈ points, p.x.isNaN = false ∧ p.y.isNaN = false
  first : ∀ p ∈ points.head?, p.x.value? = some left
  rightwards : points.Pairwise fun p q => p.x ≤ q.x
  louder {v w p q} : (v, p) ∈ values.zip points → (w, q) ∈ values.zip points → v ≤ w → q.y ≤ p.y
  silent {v p} : (v, p) ∈ values.zip points → v.value? = some 0 → p.y.value? = some bottom
  loudest {v p} : (v, p) ∈ values.zip points → (∀ w ∈ values, w ≤ v) → ∀ q ∈ points, p.y ≤ q.y

section Place

variable {value value' last start finish : Binary32} {v w s a d : ℚ}
  (hv : value.value? = some v) (hw : value'.value? = some w) (hl : last.value? = some s)
  (ha : start.value? = some a) (hd : (finish - start).value? = some d) (positive : 0 < s)

include hv hw hl ha hd positive

theorem mapRange_le_mapRange (le : v * d ≤ w * d) :
    mapRange value 0 last start finish ≤ mapRange value' 0 last start finish := by
  have product : (value - 0) * (finish - start) ≤ (value' - 0) * (finish - start) :=
    (isRounding_mul (value?_sub_zero hv) hd).le (isRounding_mul (value?_sub_zero hw) hd) le
  apply add_le_add_left (isFinite_of_value? ha)
  exact div_le_div_right (value?_sub_zero hl) positive product

omit hw

theorem value?_mapRange_zero (zero : v = 0) :
    (mapRange value 0 last start finish).value? = some a := by
  have product : ((value - 0) * (finish - start)).value? = some 0 :=
    (rounds_mul (value?_sub_zero hv) hd).exact_of_eq (by rw [zero, zero_mul]) representable_zero
  have quotient : ((value - 0) * (finish - start) / (last - 0)).value? = some 0 :=
    (rounds_div product (value?_sub_zero hl) positive.ne').exact_of_eq (zero_div s)
      representable_zero
  exact (rounds_add ha quotient).exact_of_eq (add_zero a) ⟨start, ha⟩

end Place

section Trace

variable {area : Area} {l t r b : ℚ} {values : List Binary32} {scale : Binary32}

theorem exists_bin {v : Binary32} {p : Point} (h : (v, p) ∈ values.zip (trace area scale values)) :
    ∃ bin, values[bin]? = some v ∧ p = ⟨binX area values.length bin, magnitudeY area scale v⟩ := by
  obtain ⟨bin, found⟩ := List.mem_iff_getElem?.mp h
  obtain ⟨here, there⟩ := List.getElem?_zip_eq_some.mp found
  refine ⟨bin, here, ?_⟩
  rw [trace, List.getElem?_map, List.getElem?_zipIdx, here] at there
  simpa using there.symm

theorem mem_zip_of_mem_trace {p : Point} (among : p ∈ trace area scale values) :
    ∃ v ∈ values, (v, p) ∈ values.zip (trace area scale values) := by
  have same : (trace area scale values).length = values.length := by simp [trace]
  obtain ⟨bin, inside, rfl⟩ := List.getElem_of_mem among
  refine ⟨values[bin], List.getElem_mem _, ?_⟩
  apply List.mem_iff_getElem?.mpr
  exact ⟨bin, List.getElem?_zip_eq_some.mpr
    ⟨List.getElem?_eq_getElem _, List.getElem?_eq_getElem inside⟩⟩

variable (bounded : area.Bounded l t r b) (frame : values.length ≤ Word.largestBlock)

include bounded

theorem exists_width : ∃ d, (area.right - area.left).value? = some d ∧ 0 ≤ d := by
  obtain ⟨⟨smallL, smallR⟩, -⟩ := bounded.small
  obtain ⟨d, span, -, high⟩ := within_span bounded.right bounded.left smallR smallL
  have edge : Representable (2 ^ 17) := representable_two_pow (by decide)
  have above := rounds_sub bounded.right bounded.left 0 _ representable_zero edge
    (sub_nonneg.mpr bounded.wide) (by linarith [abs_le.mp smallL, abs_le.mp smallR])
  exact ⟨d, span, (above.eq span).1⟩

theorem exists_height : ∃ d, (area.top - area.bottom).value? = some d ∧ d ≤ 0 := by
  obtain ⟨-, smallT, smallB⟩ := bounded.small
  obtain ⟨d, span, low, -⟩ := within_span bounded.top bounded.bottom smallT smallB
  have edge : Representable (2 ^ 17) := representable_two_pow (by decide)
  have below := rounds_sub bounded.top bounded.bottom _ 0 edge.neg representable_zero
    (by linarith [abs_le.mp smallT, abs_le.mp smallB]) (sub_nonpos.mpr bounded.tall)
  exact ⟨d, span, (below.eq span).2⟩

theorem value?_binX_zero (frame : values.length ≤ Word.largestBlock) :
    (binX area values.length 0).value? = some l := by
  rw [binX]
  by_cases single : values.length ≤ 1
  · rw [if_pos single, bounded.left]
  · rw [if_neg single]
    obtain ⟨d, span, -⟩ := exists_width bounded
    obtain ⟨k, last, above, -⟩ :=
      within_size_of_pos (n := values.length - 1) (by omega) ((Nat.sub_le _ 1).trans frame)
    exact value?_mapRange_zero value?_zero last bounded.left span (zero_lt_one.trans_le above) rfl

theorem binX_le_binX (frame : values.length ≤ Word.largestBlock) {i j : Nat} (le : i ≤ j)
    (inside : j < values.length) : binX area values.length i ≤ binX area values.length j := by
  rw [binX, binX]
  by_cases single : values.length ≤ 1
  · rw [if_pos single, if_pos single]
    exact (le_iff bounded.left bounded.left).mpr le_rfl
  · rw [if_neg single, if_neg single]
    obtain ⟨d, span, nonneg⟩ := exists_width bounded
    obtain ⟨k, last, above, -⟩ :=
      within_size_of_pos (n := values.length - 1) (by omega) ((Nat.sub_le _ 1).trans frame)
    obtain ⟨m, first, -, -⟩ := within_size ((le.trans inside.le).trans frame)
    obtain ⟨n, second, -, -⟩ := within_size (inside.le.trans frame)
    have ordered : m ≤ n := (isRounding_ofNat i).nearest.mono (isRounding_ofNat j).nearest
      first second (Nat.cast_le.mpr le)
    exact mapRange_le_mapRange first second last bounded.left span (zero_lt_one.trans_le above)
      (mul_le_mul_of_nonneg_right ordered nonneg)

theorem magnitudeY_le_magnitudeY {s p q : ℚ} {x y : Binary32} (hs : scale.value? = some s)
    (positive : 0 < s) (hx : x.value? = some p) (hy : y.value? = some q) (le : p ≤ q) :
    magnitudeY area scale y ≤ magnitudeY area scale x := by
  obtain ⟨d, span, nonpos⟩ := exists_height bounded
  exact mapRange_le_mapRange hy hx hs bounded.bottom span positive
    (mul_le_mul_of_nonpos_right le nonpos)

include frame

/-- The trace of magnitudes that are not negative is in order, whatever the scale is. -/
theorem ordered_trace {s : ℚ} (nonnegative : Nonnegative values) (hs : scale.value? = some s)
    (positive : 0 < s) : Ordered (trace area scale values) values l b := by
  have louder {v w p q} (first : (v, p) ∈ values.zip (trace area scale values))
      (second : (w, q) ∈ values.zip (trace area scale values)) (le : v ≤ w) : q.y ≤ p.y := by
    obtain ⟨i, hereV, rfl⟩ := exists_bin first
    obtain ⟨j, hereW, rfl⟩ := exists_bin second
    obtain ⟨m, valueV, -⟩ := nonnegative v (List.mem_of_getElem? hereV)
    obtain ⟨n, valueW, -⟩ := nonnegative w (List.mem_of_getElem? hereW)
    exact magnitudeY_le_magnitudeY bounded hs positive valueV valueW ((le_iff valueV valueW).mp le)
  constructor
  · simp [trace]
  · intro p among
    obtain ⟨v, inside, paired⟩ := mem_zip_of_mem_trace among
    obtain ⟨m, value, -⟩ := nonnegative v inside
    have upright : p.y ≤ p.y := louder paired paired ((le_iff value value).mpr le_rfl)
    obtain ⟨bin, here, rfl⟩ := exists_bin paired
    have before := (List.getElem?_eq_some_iff.mp here).1
    exact ⟨(isNaN_of_le (binX_le_binX bounded frame le_rfl before)).1, (isNaN_of_le upright).1⟩
  · intro p head
    rw [trace, List.head?_map, Option.mem_map] at head
    obtain ⟨⟨v, bin⟩, head, rfl⟩ := head
    rw [List.head?_eq_getElem?, Option.mem_def, List.getElem?_zipIdx] at head
    obtain ⟨w, -, same⟩ := Option.map_eq_some_iff.mp head
    obtain rfl : 0 = bin := congrArg Prod.snd same
    exact value?_binX_zero bounded frame
  · rw [List.pairwise_iff_getElem]
    intro i j first second less
    rw [trace, List.length_map, List.length_zipIdx] at second
    simp only [trace, List.getElem_map, List.getElem_zipIdx, Nat.zero_add]
    exact binX_le_binX bounded frame less.le second
  · exact louder
  · intro v p paired value
    obtain ⟨bin, -, rfl⟩ := exists_bin paired
    obtain ⟨d, span, -⟩ := exists_height bounded
    exact value?_mapRange_zero value hs bounded.bottom span positive rfl
  · intro v p paired most q among
    obtain ⟨w, inside, paired'⟩ := mem_zip_of_mem_trace among
    exact louder paired' paired (most w inside)

end Trace

/-- The points of a chart are in the order of its bins and their magnitudes, for every frame of
finite magnitudes that are not negative, in every area of a screen. -/
theorem ordered_layout {values : List Binary32} {area : Area} {l t r b : ℚ}
    (nonnegative : Nonnegative values) (frame : values.length ≤ Word.largestBlock)
    (bounded : area.Bounded l t r b) (sampleRate : Binary32) (fftSize : Nat) :
    Ordered (layout values area sampleRate fftSize).points values l b := by
  obtain ⟨m, value, -⟩ := Spectrum.isLoudest_loudest nonnegative
  obtain ⟨s, scale, positive, -⟩ := Spectrum.exists_scaleOf value
  exact ordered_trace bounded frame nonnegative scale positive

/-- A frame with both zeros, the smallest magnitude and one so loud that its point is above all
numbers, in an area that is no wider than a line. -/
theorem ordered_layout_loud :
    let area : Area := ⟨.ofNat 256, 0, .ofNat 256, .ofNat 256⟩
    let values : List Binary32 :=
      [zeroOf false, .finite false ⟨0x7E000000, by decide⟩, .finite false ⟨1, by decide⟩, zeroOf true]
    Nonnegative values ∧ area.Bounded 256 0 256 256 ∧
      Ordered (layout values area 44100 8).points values 256 256 := by
  intro area values
  have nonnegative : Nonnegative values := by
    intro x among
    simp only [values, List.mem_cons, List.not_mem_nil, or_false] at among
    rcases among with rfl | rfl | rfl | rfl
    · exact ⟨0, by decide +kernel, le_rfl⟩
    · exact ⟨2 ^ 125, by decide +kernel, by positivity⟩
    · exact ⟨1 / 2 ^ 149, by decide +kernel, by positivity⟩
    · exact ⟨0, by decide +kernel, le_rfl⟩
  have bounded : area.Bounded 256 0 256 256 := by
    constructor <;> decide +kernel
  exact ⟨nonnegative, bounded, ordered_layout nonnegative (by decide) bounded 44100 8⟩

end Chart

end SpectrumViewer
