import SpectrumViewer.Input.Demo
import SpectrumViewer.Proofs.Number.Monotone

set_option autoImplicit false

/-!
The magnitudes of the synthetic device are positive finite numbers, whatever its sine and
exponential do within their ranges. Bounds are carried through the computation operation by
operation, and none of them comes near to overflow as long as bins and frames are counted in 64 bits
(`exists_magnitudes`).
-/

namespace SpectrumViewer

namespace Elementary

open Binary32

variable (elementary : Elementary)

theorem within_sine {x : Binary32} {v : ℚ} (value : x.value? = some v) :
    (elementary.sine x).Within (-1) 1 := by
  have lowest : (-1 : Binary32).value? = some (-1) := by
    rw [value?_neg, value?_one]
    rfl
  obtain ⟨above, below⟩ := elementary.sine_range x (isFinite_of_value? value)
  exact exists_value?_between lowest value?_one above below

theorem within_exponential {x : Binary32} (negative : x ≤ 0) :
    (elementary.exponential x).Within 0 1 := by
  obtain ⟨above, below⟩ := elementary.exponential_range x negative
  exact exists_value?_between value?_zero value?_one above below

end Elementary

namespace Demo

open Binary32

theorem value?_rippleDepth : rippleDepth.value? = some (1 / 2) := by decide +kernel

theorem value?_toneWidth : toneWidth.value? = some 3 := by decide +kernel

theorem representable_half : Representable (1 / 2) := ⟨rippleDepth, value?_rippleDepth⟩

theorem within_rippleDepth : rippleDepth.Within (1 / 2) (1 / 2) :=
  ⟨1 / 2, value?_rippleDepth, le_rfl, le_rfl⟩

theorem within_floorHeight : floorHeight.Within (1 / 2 ^ 6) 1 := by
  apply rounds_ofRatio 2 (by decide) _ _ (representable_half_pow (by decide)) representable_one
  · norm_num
  · norm_num

theorem within_ofRatio {num den : Nat} (positive : 0 < den) (small : num ≤ den) :
    (ofRatio num den).Within 0 1 := by
  apply rounds_ofRatio num positive 0 1 representable_zero representable_one
  · positivity
  · exact div_le_one_of_le₀ (mod_cast small) (Nat.cast_nonneg _)

section Bell

variable (elementary : Elementary) {x center : Binary32}

theorem within_deviation (hx : x.Within 0 (2 ^ 64)) (hc : center.Within 0 (2 ^ 65)) :
    ((x - center) / toneWidth).Within (-2 ^ 64) (2 ^ 64) := by
  have difference : (x - center).Within (-2 ^ 65) (2 ^ 64) := by
    apply hx.sub hc (representable_two_pow (by decide)).neg (representable_two_pow (by decide))
    · norm_num
    · norm_num
  apply difference.div value?_toneWidth (by norm_num)
    (representable_two_pow (by decide)).neg (representable_two_pow (by decide))
  · norm_num
  · norm_num

/-- The exponent of a bell curve carries a minus: its two signs of the deviation cancel. -/
theorem exponent_le_zero {d : Binary32} (hd : d.Within (-2 ^ 64) (2 ^ 64)) :
    -rippleDepth * d * d ≤ 0 := by
  obtain ⟨half, halfEq⟩ := within_rippleDepth.eq_finite_false (by norm_num)
  obtain ⟨s, code, same⟩ := hd.eq_finite
  have negative : (-rippleDepth).Within (-(1 / 2)) (1 / 2) :=
    within_rippleDepth.neg.mono le_rfl (by norm_num)
  have once : (-rippleDepth * d).Within (-2 ^ 63) (2 ^ 63) :=
    negative.mul_abs hd (representable_two_pow (by decide)) (by norm_num)
  have twice : (-rippleDepth * d * d).Within (-2 ^ 127) (2 ^ 127) :=
    once.mul_abs hd (representable_two_pow (by decide)) (by norm_num)
  have minus : -rippleDepth = finite true half := by
    rw [halfEq]
    rfl
  rw [minus, same] at once twice ⊢
  obtain ⟨first, firstEq⟩ := once.sign_mul
  rw [firstEq] at twice ⊢
  obtain ⟨second, secondEq⟩ := twice.sign_mul
  have sign : ((true != s) != s) = true := by cases s <;> rfl
  rw [secondEq, sign]
  exact finite_true_le_zero second

theorem within_bell (hx : x.Within 0 (2 ^ 64)) (hc : center.Within 0 (2 ^ 65)) :
    (bell elementary x center toneWidth).Within 0 1 :=
  elementary.within_exponential (exponent_le_zero (within_deviation hx hc))

end Bell

section Magnitude

variable (elementary : Elementary) {peak drift bin : Binary32}

theorem within_angle (hd : drift.Within 0 (2 ^ 64)) (hb : bin.Within 0 (2 ^ 64)) :
    (bin * rippleStep + drift).Within 0 (2 ^ 65) := by
  have scaled : (bin * rippleStep).Within 0 (2 ^ 64) := by
    apply hb.mul (within_ofRatio (by decide) (by decide)) le_rfl le_rfl representable_zero
      (representable_two_pow (by decide))
    · norm_num
    · norm_num
  apply scaled.add hd representable_zero (representable_two_pow (by decide))
  · norm_num
  · norm_num

theorem within_ripple {angle : Binary32} {v : ℚ} (value : angle.value? = some v) :
    (floorHeight * (1 + rippleDepth * elementary.sine angle)).Within (1 / 2 ^ 7) 2 := by
  have depth : rippleDepth.Within (-(1 / 2)) (1 / 2) :=
    within_rippleDepth.mono (by norm_num) le_rfl
  have wave : (rippleDepth * elementary.sine angle).Within (-(1 / 2)) (1 / 2) :=
    depth.mul_abs (elementary.within_sine value) representable_half (by norm_num)
  have one : Within 1 1 1 :=
    rounds_ofNat 1 1 1 representable_one representable_one (by simp) (by simp)
  have raised : (1 + rippleDepth * elementary.sine angle).Within (1 / 2) (2 ^ 1) := by
    apply one.add wave representable_half (representable_two_pow (by decide))
    · norm_num
    · norm_num
  have product := within_floorHeight.mul raised (by norm_num) (by norm_num)
    (representable_half_pow (k := 7) (by decide)) (representable_two_pow (k := 1) (by decide))
    (by norm_num) (by norm_num)
  exact product.mono le_rfl (by norm_num)

theorem within_magnitude (hp : peak.Within 0 (2 ^ 64)) (hd : drift.Within 0 (2 ^ 64))
    (hb : bin.Within 0 (2 ^ 64)) :
    (magnitude elementary peak drift bin).Within (1 / 2 ^ 7) (2 ^ 3) := by
  have tone : (bell elementary bin peak toneWidth).Within 0 1 :=
    within_bell elementary hb (hp.mono le_rfl (by norm_num))
  have two : Within 2 0 (2 ^ 1) := within_ofNat (by decide) (by decide)
  have double : (peak * 2).Within 0 (2 ^ 65) := by
    apply hp.mul two le_rfl le_rfl representable_zero (representable_two_pow (by decide))
    · norm_num
    · norm_num
  have harmonic : (harmonicHeight * bell elementary bin (peak * 2) toneWidth).Within 0 1 := by
    apply (within_ofRatio (by decide) (by decide)).mul (within_bell elementary hb double) le_rfl
      le_rfl representable_zero representable_one
    · norm_num
    · norm_num
  obtain ⟨v, value, -, -⟩ := within_angle hd hb
  have first := (within_ripple elementary value).add tone
    (representable_half_pow (k := 7) (by decide)) (representable_two_pow (k := 2) (by decide))
    (by norm_num) (by norm_num)
  exact first.add harmonic (representable_half_pow (by decide)) (representable_two_pow (by decide))
    (by norm_num) (by norm_num)

end Magnitude

theorem progress_le (index : Nat) : progress index ≤ 120 := by
  have phase : index % 240 < 240 := Nat.mod_lt index (by decide)
  show (if index % 240 < 120 then index % 240 else 240 - index % 240) ≤ 120
  split <;> omega

theorem exists_peakBin (demo : Demo) (index : Nat)
    (span : 120 * (demo.binCount - 1) < 2 ^ 64) :
    ∃ peak, demo.peakBin? index = some peak ∧ peak < 2 ^ 64 := by
  rw [peakBin?]
  split
  · exact ⟨0, rfl, by decide⟩
  · have bound : progress index * (demo.binCount - 1) < 2 ^ 64 :=
      (Nat.mul_le_mul_right _ (progress_le index)).trans_lt span
    refine ⟨progress index * (demo.binCount - 1) / (period / 2), ?_, ?_⟩
    · rw [Word.product?_eq_some_of_lt bound]
      rfl
    · exact (Nat.div_le_self _ _).trans_lt bound

/-- The magnitudes of a frame are there, one for each bin, and none of them carries a minus. -/
theorem exists_magnitudes (elementary : Elementary) (demo : Demo) {index : Nat}
    (span : 120 * (demo.binCount - 1) < 2 ^ 64) (word : index < 2 ^ 64) :
    ∃ values, demo.magnitudes? index elementary = some values ∧ values.length = demo.binCount ∧
      ∀ x ∈ values, ∃ code, x = finite false code := by
  obtain ⟨peak, known, small⟩ := exists_peakBin demo index span
  have fits : demo.fitsMemory = true := by
    apply decide_eq_true
    show demo.binCount * 4 ≤ 9223372036854775807
    omega
  have shape : demo.magnitudes? index elementary = some ((List.range demo.binCount).map fun i =>
      magnitude elementary (.ofNat peak) (.ofNat index * rippleDrift) (.ofNat i)) := by
    rw [magnitudes?, known, fits]
    rfl
  refine ⟨_, shape, by rw [List.length_map, List.length_range], ?_⟩
  intro x membership
  obtain ⟨i, inside, rfl⟩ := List.mem_map.mp membership
  have drift : (ofNat index * rippleDrift).Within 0 (2 ^ 64) := by
    apply (within_ofNat word.le (by decide)).mul (within_ofRatio (by decide) (by decide)) le_rfl
      le_rfl representable_zero (representable_two_pow (by decide))
    · norm_num
    · norm_num
  have bin : i ≤ 2 ^ 64 := by
    have := List.mem_range.mp inside
    omega
  have bounds := within_magnitude elementary (within_ofNat small.le (by decide)) drift
    (within_ofNat bin (by decide))
  exact bounds.eq_finite_false (by norm_num)

end Demo

end SpectrumViewer
