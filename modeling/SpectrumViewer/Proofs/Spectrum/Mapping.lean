import SpectrumViewer.Proofs.Number.Order
import SpectrumViewer.Spectrum.Chart

set_option autoImplicit false

/-!
A place on a scale as a place on the screen. Where the product before the division is finite, the
result is less than a pixel off the exact one (`exists_mapRange`): the product can lose as much as
half of the smallest magnitude, which the division by a scale as small as that makes half a pixel.
-/

namespace SpectrumViewer

namespace Binary32

variable {x : Binary32} {q : ℚ}

theorem Representable.le_of_pos (h : Representable q) (positive : 0 < q) : 1 / one ≤ q := by
  obtain ⟨code, -, units⟩ := h.units positive.le
  rw [div_le_iff₀ one_pos, units]
  have some := mul_pos positive one_pos
  rw [units] at some
  exact_mod_cast some

theorem IsRounding.exists_close (h : x.IsRounding q) (bounded : |q| ≤ 2 ^ 17) :
    ∃ v, x.value? = some v ∧ |v - q| ≤ 1 / 2 ^ 6 := by
  obtain ⟨v, value, near⟩ := h.exists_near (bounded.trans_lt (by norm_num))
  refine ⟨v, value, near.trans ?_⟩
  calc |q| / 2 ^ 24 + 1 / 2 ^ 150 ≤ 2 ^ 17 / 2 ^ 24 + 1 / 2 ^ 150 := by gcongr
    _ ≤ 1 / 2 ^ 6 := by norm_num

end Binary32

namespace Chart

open Binary32

section Place

variable {value last start finish : Binary32} {v s a c : ℚ}

theorem isFinite_of_mapRange (hl : last.value? = some s)
    (h : (mapRange value 0 last start finish).isFinite = true) :
    ((value - 0) * (finish - start)).isFinite = true :=
  isFinite_of_div (isFinite_of_add h).2 (isFinite_of_value? (value?_sub_zero hl))

/-- A quotient whose numerator was rounded is off by half a pixel at most, and by the part of the
numerator that its digits cannot show. -/
theorem abs_div_sub_le {d e : ℚ} (positive : 1 / one ≤ s) (nonneg : 0 ≤ v) (inside : v ≤ s)
    (near : |e - v * d| ≤ |v * d| / 2 ^ 24 + 1 / 2 ^ 150) (bounded : |d| ≤ 2 ^ 16) :
    |e / s - v / s * d| ≤ 1 / 2 + 1 / 2 ^ 8 := by
  have above : 0 < s := (div_pos zero_lt_one one_pos).trans_le positive
  have part : v / s * |d| ≤ 2 ^ 16 := by
    refine (mul_le_of_le_one_left (abs_nonneg d) ?_).trans bounded
    exact div_le_one_of_le₀ inside above.le
  have lost : 1 / 2 ^ 150 / s ≤ 1 / 2 := by
    rw [div_le_iff₀ above]
    rw [cast_one_eq] at positive
    linarith
  calc |e / s - v / s * d| = |e - v * d| / s := by
        rw [← abs_of_pos above, ← abs_div, abs_of_pos above, sub_div, div_mul_eq_mul_div]
    _ ≤ (|v * d| / 2 ^ 24 + 1 / 2 ^ 150) / s := div_le_div_of_nonneg_right near above.le
    _ = v / s * |d| / 2 ^ 24 + 1 / 2 ^ 150 / s := by
        rw [abs_mul, abs_of_nonneg nonneg]
        ring
    _ ≤ 1 / 2 + 1 / 2 ^ 8 := by linarith

theorem exists_mapRange (hv : value.value? = some v) (hl : last.value? = some s)
    (ha : start.value? = some a) (hc : finish.value? = some c) (nonneg : 0 ≤ v) (inside : v ≤ s)
    (positive : 0 < s) (first : |a| ≤ 2 ^ 15) (second : |c| ≤ 2 ^ 15)
    (finite : (value * (finish - start)).isFinite = true) :
    ∃ y, (mapRange value 0 last start finish).value? = some y ∧
      |y - (a + v / s * (c - a))| ≤ 3 / 4 := by
  have step := Representable.le_of_pos ⟨last, hl⟩ positive
  have part : v / s ≤ 1 := div_le_one_of_le₀ inside positive.le
  have nonnegPart : 0 ≤ v / s := div_nonneg nonneg positive.le
  have span : |c - a| ≤ 2 ^ 16 := (abs_sub c a).trans (by linarith)
  obtain ⟨d, difference, errorD⟩ := (isRounding_sub hc ha).exists_close (span.trans (by norm_num))
  have bounded : |d| ≤ 2 ^ 16 := by
    have edge : Representable (2 ^ 16) := representable_two_pow (by decide)
    obtain ⟨above, below⟩ := abs_le.mp span
    exact abs_le.mpr ((rounds_sub hc ha _ _ edge.neg edge above below).eq difference)
  have shrunk (w : ℚ) : |v / s * w| ≤ |w| := by
    rw [abs_mul, abs_of_nonneg nonnegPart]
    exact mul_le_of_le_one_left (abs_nonneg w) part
  have finite := isFinite_mul_of_abs_le (value?_sub_zero hv) difference hv difference le_rfl finite
  have product := isRounding_mul (value?_sub_zero hv) difference
  obtain ⟨e, numerator, near⟩ := product.exists_near (product.isFinite_iff.mp finite)
  have errorE := abs_le.mp (abs_div_sub_le step nonneg inside near bounded)
  have sizeD := abs_le.mp ((shrunk d).trans bounded)
  have sizeE : |e / s| ≤ 2 ^ 17 := abs_le.mpr ⟨by linarith, by linarith⟩
  obtain ⟨q, quotient, close⟩ :=
    (isRounding_div numerator (value?_sub_zero hl) positive.ne').exists_close sizeE
  have errorQ := abs_le.mp close
  have edge := abs_le.mp first
  have sizeQ : |a + q| ≤ 2 ^ 17 := abs_le.mpr ⟨by linarith, by linarith⟩
  obtain ⟨y, sum, close'⟩ := (isRounding_add ha quotient).exists_close sizeQ
  have errorY := abs_le.mp close'
  refine ⟨y, sum, abs_le.mpr ?_⟩
  have errorS : |v / s * d - v / s * (c - a)| ≤ 1 / 2 ^ 6 := by
    rw [← mul_sub]
    exact (shrunk _).trans errorD
  have errorS := abs_le.mp errorS
  constructor <;> linarith

/-- A place on the scale stays within a pixel of the edges that it is carried over to. -/
theorem within_mapRange {low high : ℚ} (hv : value.value? = some v) (hl : last.value? = some s)
    (ha : start.value? = some a) (hc : finish.value? = some c) (nonneg : 0 ≤ v) (inside : v ≤ s)
    (positive : 0 < s) (first : |a| ≤ 2 ^ 15) (second : |c| ≤ 2 ^ 15)
    (finite : (value * (finish - start)).isFinite = true) (least : low ≤ a ∧ low ≤ c)
    (most : a ≤ high ∧ c ≤ high) :
    (mapRange value 0 last start finish).Within (low - 1) (high + 1) := by
  obtain ⟨y, mapped, error⟩ :=
    exists_mapRange hv hl ha hc nonneg inside positive first second finite
  have part : v / s ≤ 1 := div_le_one_of_le₀ inside positive.le
  have nonnegPart : 0 ≤ v / s := div_nonneg nonneg positive.le
  have blend : a + v / s * (c - a) = (1 - v / s) * a + v / s * c := by ring
  have below : (1 - v / s) * low + v / s * low ≤ (1 - v / s) * a + v / s * c :=
    add_le_add (mul_le_mul_of_nonneg_left least.1 (by linarith))
      (mul_le_mul_of_nonneg_left least.2 nonnegPart)
  have above : (1 - v / s) * a + v / s * c ≤ (1 - v / s) * high + v / s * high :=
    add_le_add (mul_le_mul_of_nonneg_left most.1 (by linarith))
      (mul_le_mul_of_nonneg_left most.2 nonnegPart)
  rw [blend] at error
  obtain ⟨_, _⟩ := abs_le.mp error
  exact ⟨y, mapped, by linarith, by linarith⟩

end Place

end Chart

end SpectrumViewer
