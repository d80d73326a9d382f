import SpectrumViewer.Proofs.Number.Order

set_option autoImplicit false

/-!
Part of the way from one value to another. The difference is rounded, then its part, then the sum.
For values that are not negative, what comes out still lies between the two (`within_interpolated`):
a difference that was rounded up is large enough for its part to lose that much again.
-/

namespace SpectrumViewer

open BinaryFormat (single)

namespace BinaryFormat

variable {f : BinaryFormat} {code other : Nat} {q : ℚ}

theorem hidden_mul_step_lt (large : f.hidden < f.units code) :
    f.hidden * (f.units code - f.units (code - 1)) < f.units code := by
  obtain ⟨shift, r, same, few, normal, scaled⟩ := f.exists_units_eq code
  have positive : 0 < f.hidden := hidden_pos
  have power := Nat.two_pow_pos shift
  rcases normal with flat | normal
  · subst flat
    rw [Nat.pow_zero, Nat.mul_one] at scaled
    have pred : f.units (code - 1) = r - 1 := by
      rw [same, Nat.zero_mul, Nat.zero_add]
      have units : f.units (0 * f.hidden + (r - 1)) = (r - 1) * 2 ^ 0 :=
        units_mul_add (by omega) (Or.inl rfl)
      rwa [Nat.zero_mul, Nat.zero_add, Nat.pow_zero, Nat.mul_one] at units
    rw [pred, scaled, show r - (r - 1) = 1 by omega, Nat.mul_one]
    omega
  rcases normal.lt_or_eq with above | rfl
  · have pred : f.units (code - 1) = (r - 1) * 2 ^ shift := by
      rw [same, Nat.add_sub_assoc (by omega)]
      exact units_mul_add (by omega) (Or.inr (by omega))
    rw [pred, scaled, ← Nat.sub_mul, show r - (r - 1) = 1 by omega, Nat.one_mul]
    exact Nat.mul_lt_mul_of_pos_right above power
  · cases shift with
    | zero =>
      rw [Nat.pow_zero, Nat.mul_one] at scaled
      omega
    | succ shift =>
      have pred : f.units (code - 1) = (2 * f.hidden - 1) * 2 ^ shift := by
        rw [same, Nat.succ_mul, Nat.add_assoc, Nat.add_sub_assoc (by omega),
          show f.hidden + f.hidden - 1 = 2 * f.hidden - 1 by omega]
        exact units_mul_add (by omega) (Or.inr (by omega))
      have double : f.hidden * 2 ^ (shift + 1) = 2 * f.hidden * 2 ^ shift := by ring
      rw [pred, scaled, double, ← Nat.sub_mul, show 2 * f.hidden - (2 * f.hidden - 1) = 1 by omega,
        Nat.one_mul]
      exact Nat.mul_lt_mul_of_pos_right (by omega) (Nat.two_pow_pos shift)

/-- A magnitude that loses half of its last place is rounded to a smaller one. -/
theorem IsNearest.lt_of_le (nearest : f.IsNearest other q) (large : f.hidden < f.units code)
    (below : q ≤ f.units code * (1 - 1 / (2 * f.hidden))) : other < code := by
  by_contra! above
  have positive : 0 < code := units_pos_iff.mp (Nat.zero_lt_of_lt large)
  have less : f.units (code - 1) < f.units code := f.units_strictMono (by omega)
  have step : (f.hidden : ℚ) * (f.units code - f.units (code - 1)) < f.units code := by
    rw [← Nat.cast_sub less.le]
    exact_mod_cast hidden_mul_step_lt large
  have hidden : (0 : ℚ) < f.hidden := mod_cast hidden_pos
  have lost : (f.units code : ℚ) * (1 - 1 / (2 * f.hidden)) =
      f.units code - f.units code / f.hidden / 2 := by
    field_simp
  have gap : (f.units code : ℚ) - f.units (code - 1) < f.units code / f.hidden := by
    rwa [lt_div_iff₀ hidden, mul_comm]
  have ordered : (f.units code : ℚ) ≤ f.units other := mod_cast f.units_strictMono.monotone above
  have lower : (f.units (code - 1) : ℚ) < f.units code := mod_cast less
  have near := nearest.closest (code - 1)
  rw [abs_of_nonneg (by linarith), le_abs] at near
  rcases near with _ | _ <;> linarith

/-- A whole number of units that is rounded, reduced and rounded again does not exceed the number:
only a number of many digits is rounded up at all. -/
theorem IsNearest.units_le_of_reduced {n : Nat} {part : ℚ} (first : f.IsNearest code n)
    (second : f.IsNearest other (f.units code * part)) (proper : part ≤ 1 - 1 / (2 * f.hidden)) :
    f.units other ≤ n := by
  have magnitude : (0 : ℚ) ≤ f.units code := Nat.cast_nonneg _
  have reduced := mul_le_mul_of_nonneg_left proper magnitude
  rcases Nat.lt_or_ge n (f.units code) with up | down
  · have large : f.hidden < f.units code := by
      by_contra! small
      obtain ⟨exact, same⟩ := f.exists_units_eq_mul_pow (r := n) (by omega) 0
      rw [Nat.pow_zero, Nat.mul_one] at same
      have reached : code ≤ exact := first.le_of_le (by rw [same])
      exact absurd (f.units_strictMono.monotone reached) (by omega)
    have positive : 0 < code := units_pos_iff.mp (Nat.zero_lt_of_lt large)
    have less := second.lt_of_le large reduced
    have reached : f.units (code - 1) ≤ n := by
      by_contra! beyond
      have reached : code ≤ code - 1 := first.le_of_le (mod_cast beyond.le)
      omega
    exact (f.units_strictMono.monotone (by omega)).trans reached
  · have whole : (0 : ℚ) ≤ 1 / (2 * f.hidden) := by positivity
    have shorter : (f.units code : ℚ) * part ≤ f.units code :=
      mul_le_of_le_one_right magnitude (by linarith)
    have less : other ≤ code := second.le_of_le shorter
    exact (f.units_strictMono.monotone less).trans down

end BinaryFormat

namespace Binary32

variable {x y part : Binary32} {a b t : ℚ}

theorem Representable.le_of_lt_one (h : Representable t) (below : t < 1) :
    t ≤ 1 - 1 / (2 * single.hidden) := by
  rcases le_total t 0 with negative | nonneg
  · refine negative.trans ?_
    norm_num [BinaryFormat.hidden]
  obtain ⟨code, -, units⟩ := h.units nonneg
  have last : single.units 0x3F7FFFFF = (2 ^ 24 - 1) * 2 ^ 125 := by decide +kernel
  have unit : single.units 0x3F800000 = one := by decide +kernel
  have less : single.units code < single.units 0x3F800000 := by
    rw [unit]
    have := mul_lt_mul_of_pos_right below one_pos
    rw [units, one_mul] at this
    exact_mod_cast this
  rw [single.units_strictMono.lt_iff_lt] at less
  have most : (single.units code : ℚ) ≤ single.units 0x3F7FFFFF :=
    mod_cast single.units_strictMono.monotone (Nat.le_of_lt_succ less)
  rw [← units, last, ← le_div_iff₀ one_pos] at most
  refine most.trans_eq ?_
  rw [cast_one_eq]
  norm_num [BinaryFormat.hidden]

section Between

variable (hx : x.value? = some a) (hy : y.value? = some b) (hp : part.value? = some t)
  (nonnegX : 0 ≤ a) (nonnegY : 0 ≤ b) (nonneg : 0 ≤ t) (proper : t < 1)

include hx hy nonnegX nonnegY

theorem within_difference : (y - x).Within (-a) b :=
  rounds_sub hy hx (-a) b (Representable.neg ⟨x, hx⟩) ⟨y, hy⟩ (by linarith) (by linarith)

theorem exists_difference_units : ∃ n : Nat, |b - a| * one = n := by
  obtain ⟨codeX, -, unitsX⟩ := Representable.units ⟨x, hx⟩ nonnegX
  obtain ⟨codeY, -, unitsY⟩ := Representable.units ⟨y, hy⟩ nonnegY
  refine ⟨((single.units codeY : Int) - single.units codeX).natAbs, ?_⟩
  rw [Nat.cast_natAbs, Int.cast_abs, Int.cast_sub, Int.cast_natCast, Int.cast_natCast, ← unitsX,
    ← unitsY, ← sub_mul, abs_mul, abs_of_pos one_pos]

include hp nonneg proper

theorem exists_value?_sub_mul :
    ∃ m, ((y - x) * part).value? = some m ∧ (0 ≤ m ∧ m ≤ b - a ∨ b - a ≤ m ∧ m ≤ 0) := by
  obtain ⟨d, valueD, -, -⟩ := within_difference hx hy nonnegX nonnegY
  obtain ⟨n, units⟩ := exists_difference_units hx hy nonnegX nonnegY
  have shorter : |d * t| ≤ |d| := by
    rw [abs_mul, abs_of_nonneg nonneg]
    exact mul_le_of_le_one_right (abs_nonneg d) proper.le
  have bound : Representable |d| := Representable.abs ⟨_, valueD⟩
  obtain ⟨above, below⟩ := abs_le.mp shorter
  obtain ⟨m, valueM, -, -⟩ := rounds_mul valueD hp _ _ bound.neg bound above below
  obtain ⟨code, first, aboveD, belowD⟩ := (isRounding_sub hy hx).nearest.exists_code valueD
  obtain ⟨other, second, aboveM, belowM⟩ := (isRounding_mul valueD hp).nearest.exists_code valueM
  have size : |d| = single.units code / one := by
    rcases le_total 0 (b - a) with up | down
    · rw [aboveD up, abs_of_nonneg (units_div_nonneg code)]
    · rw [belowD down, abs_neg, abs_of_nonneg (units_div_nonneg code)]
  rw [abs_mul, size, abs_of_nonneg nonneg, mul_right_comm, div_mul_cancel₀ _ one_pos.ne'] at second
  have reduced : single.units other / one ≤ |b - a| := by
    rw [div_le_iff₀ one_pos, units]
    rw [units] at first
    exact_mod_cast first.units_le_of_reduced second (Representable.le_of_lt_one ⟨part, hp⟩ proper)
  refine ⟨m, valueM, ?_⟩
  rcases le_total 0 (b - a) with up | down
  · left
    rw [abs_of_nonneg up] at reduced
    rw [aboveM (mul_nonneg (aboveD up ▸ units_div_nonneg code) nonneg)]
    exact ⟨units_div_nonneg other, reduced⟩
  · right
    rw [abs_of_nonpos down] at reduced
    have negative : d ≤ 0 := belowD down ▸ neg_nonpos.mpr (units_div_nonneg code)
    rw [belowM (mul_nonpos_of_nonpos_of_nonneg negative nonneg)]
    exact ⟨by linarith, neg_nonpos.mpr (units_div_nonneg other)⟩

/-- What lies part of the way from one value to another lies between them. -/
theorem within_interpolated {low high : ℚ} (lowest : Representable low)
    (highest : Representable high) (first : low ≤ a ∧ a ≤ high) (second : low ≤ b ∧ b ≤ high) :
    (x + (y - x) * part).Within low high := by
  obtain ⟨m, value, between⟩ := exists_value?_sub_mul hx hy hp nonnegX nonnegY nonneg proper
  apply rounds_add hx value low high lowest highest
  · rcases between with _ | _ <;> linarith
  · rcases between with _ | _ <;> linarith

end Between

end Binary32

end SpectrumViewer
