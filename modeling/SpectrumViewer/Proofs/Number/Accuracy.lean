import SpectrumViewer.Proofs.Number.Reading

set_option autoImplicit false

/-!
How accurate an operation is. Its result is off by half of the last place of the exact one, or by
half a unit (`Nearest.error`), and rounding keeps the order of numbers (`Nearest.mono`). It is
finite up to half a step above the largest finite value (`IsRounding.isFinite_iff`), and what is not
finite stays so through sums, differences and products.
-/

namespace SpectrumViewer

open BinaryFormat (single)

namespace Binary32

variable {x y : Binary32} {p q v : ℚ}

theorem isFinite_iff : x.isFinite = true ↔ ∃ v, x.value? = some v := by
  cases x <;> simp [isFinite, value?]

theorem isFinite_of_value? (h : x.value? = some v) : x.isFinite = true :=
  isFinite_iff.mpr ⟨v, h⟩

theorem Within.isFinite {low high : ℚ} (h : x.Within low high) : x.isFinite = true := by
  obtain ⟨v, value, -⟩ := h
  exact isFinite_of_value? value

theorem Within.eq {low high : ℚ} (h : x.Within low high) (value : x.value? = some v) :
    low ≤ v ∧ v ≤ high := by
  obtain ⟨w, found, bounds⟩ := h
  obtain rfl := Option.some.inj (found.symm.trans value)
  exact bounds

/-- What some value stands for is not rounded. -/
theorem Rounds.exact (h : x.Rounds q) (representable : Representable q) : x.value? = some q := by
  obtain ⟨v, value, above, below⟩ := h q q representable representable le_rfl le_rfl
  rw [value, le_antisymm below above]

theorem Rounds.exact_of_eq (h : x.Rounds p) (same : p = q) (representable : Representable q) :
    x.value? = some q := (same ▸ h).exact representable

theorem Representable.abs (h : Representable q) : Representable |q| := by
  rcases abs_choice q with same | negated
  · rwa [same]
  · rw [negated]
    exact h.neg

theorem IsRounding.nearest (h : x.IsRounding q) : Nearest q x := by
  obtain ⟨negative, num, den, positive, rfl, rfl⟩ := h
  obtain ⟨code, limited, nearest⟩ :=
    BinaryFormat.exists_isNearest (f := single) (by decide) num positive
  have denominator : (0 : ℚ) < den * one := mul_pos (mod_cast positive) one_pos
  rw [rounded, limited, ofCode_min, div_eq_mul_inv]
  apply nearest_ofCode (inv_pos.mpr denominator)
  rwa [← div_eq_mul_inv, ← div_div, div_mul_cancel₀ _ one_pos.ne']

theorem Nearest.exists_code (h : Nearest q x) (value : x.value? = some v) :
    ∃ code, single.IsNearest code (|q| * one) ∧ (0 ≤ q → v = single.units code / one) ∧
      (q ≤ 0 → v = -(single.units code / one)) := by
  obtain @⟨negative, code, nearest, below, above⟩ := h
  have finite : code < single.infinityCode := by
    by_contra infinite
    rw [ofCode, dif_neg infinite] at value
    cases value
  rw [ofCode, dif_pos finite] at value
  obtain rfl := Option.some.inj value
  have zero : q = 0 → code = 0 := by
    rintro rfl
    rw [abs_zero, zero_mul] at nearest
    exact Nat.le_zero.mp (nearest.le_of_le (Nat.cast_nonneg _))
  refine ⟨code, nearest, fun nonneg => ?_, fun nonpos => ?_⟩
  · rcases nonneg.eq_or_lt with none | positive
    · cases negative <;> simp [zero none.symm, units_zero]
    · simp [above positive]
  · rcases nonpos.eq_or_lt with none | negative
    · cases negative <;> simp [zero none, units_zero]
    · simp [below negative, neg_div]

/-- A result is off by half of its last place, or by half of the smallest magnitude. -/
theorem Nearest.error (h : Nearest q x) (value : x.value? = some v) :
    |v - q| ≤ |q| / 2 ^ 24 + 1 / 2 ^ 150 := by
  obtain ⟨code, nearest, above, below⟩ := h.exists_code value
  have distance : |v - q| = |single.units code - |q| * one| / one := by
    have scaled : (single.units code / one : ℚ) - |q| = (single.units code - |q| * one) / one := by
      rw [sub_div, mul_div_cancel_right₀ _ one_pos.ne']
    rw [← abs_of_pos one_pos, ← abs_div, abs_of_pos one_pos, ← scaled]
    rcases le_total 0 q with nonneg | nonpos
    · rw [above nonneg, abs_of_nonneg nonneg]
    · rw [below nonpos, abs_of_nonpos nonpos, ← abs_neg]
      congr 1
      ring
  have units := nearest.error (mul_nonneg (abs_nonneg q) one_pos.le)
  rw [distance, div_le_iff₀ one_pos]
  refine units.trans_eq ?_
  rw [cast_one_eq]
  norm_num [BinaryFormat.hidden]
  ring

theorem Nearest.mono {u : ℚ} (hx : Nearest p x) (hy : Nearest q y) (valueX : x.value? = some u)
    (valueY : y.value? = some v) (le : p ≤ q) : u ≤ v := by
  obtain ⟨codeX, nearestX, aboveX, belowX⟩ := hx.exists_code valueX
  obtain ⟨codeY, nearestY, aboveY, belowY⟩ := hy.exists_code valueY
  have ordered {first second : Nat} (h : first ≤ second) :
      (single.units first / one : ℚ) ≤ single.units second / one :=
    div_le_div_of_nonneg_right (mod_cast single.units_strictMono.monotone h) one_pos.le
  rcases le_total 0 p with nonneg | nonpos
  · have nonneg' := nonneg.trans le
    rw [aboveX nonneg, aboveY nonneg']
    apply ordered
    apply nearestX.mono nearestY
    rw [abs_of_nonneg nonneg, abs_of_nonneg nonneg']
    exact mul_le_mul_of_nonneg_right le one_pos.le
  rw [belowX nonpos]
  rcases le_total 0 q with nonneg' | nonpos'
  · rw [aboveY nonneg']
    exact (neg_nonpos.mpr (units_div_nonneg codeX)).trans (units_div_nonneg codeY)
  · rw [belowY nonpos', neg_le_neg_iff]
    apply ordered
    apply nearestY.mono nearestX
    rw [abs_of_nonpos nonpos, abs_of_nonpos nonpos']
    exact mul_le_mul_of_nonneg_right (neg_le_neg le) one_pos.le

theorem IsRounding.isFinite_iff (h : x.IsRounding q) :
    x.isFinite = true ↔ |q| < 2 ^ 128 - 2 ^ 103 := h.nearest.isFinite_iff

theorem IsRounding.exists_near (h : x.IsRounding q) (inRange : |q| < 2 ^ 128 - 2 ^ 103) :
    ∃ v, x.value? = some v ∧ |v - q| ≤ |q| / 2 ^ 24 + 1 / 2 ^ 150 := by
  obtain ⟨v, value⟩ := Binary32.isFinite_iff.mp (h.isFinite_iff.mpr inRange)
  exact ⟨v, value, h.nearest.error value⟩

theorem isFinite_mul {i j : Nat} (hx : x.value? = some p) (hy : y.value? = some q)
    (smallX : |p| ≤ 2 ^ i) (smallY : |q| ≤ 2 ^ j) (few : i + j < 128) : (x * y).isFinite = true := by
  have product := (within_of_abs_le hx smallX).mul_abs (within_of_abs_le hy smallY)
    (representable_two_pow few) (pow_add 2 i j).ge
  exact product.isFinite

theorem isFinite_mul_of_abs_le {x' y' : Binary32} {p' q' : ℚ} (hx : x.value? = some p)
    (hy : y.value? = some q) (hx' : x'.value? = some p') (hy' : y'.value? = some q')
    (smaller : |p * q| ≤ |p' * q'|) (finite : (x' * y').isFinite = true) :
    (x * y).isFinite = true := by
  rw [(isRounding_mul hx' hy').isFinite_iff] at finite
  exact (isRounding_mul hx hy).isFinite_iff.mpr (smaller.trans_lt finite)

theorem isFinite_div (hx : x.isFinite = true) (hy : y.value? = some q) (large : 1 ≤ q) :
    (x / y).isFinite = true := by
  obtain ⟨p, value⟩ := isFinite_iff.mp hx
  have small : |p / q| ≤ |p| := by
    rw [abs_div]
    exact div_le_self (abs_nonneg p) (large.trans (le_abs_self q))
  obtain ⟨above, below⟩ := abs_le.mp small
  have bound : Representable |p| := Representable.abs ⟨x, value⟩
  have nonzero : q ≠ 0 := (zero_lt_one.trans_le large).ne'
  exact (rounds_div value hy nonzero _ _ bound.neg bound above below).isFinite

theorem isFinite_neg (x : Binary32) : (-x).isFinite = x.isFinite := by
  show (neg x).isFinite = _
  cases x <;> rfl

theorem not_isFinite_ite_nan_infinite (zero : Prop) [Decidable zero] (negative : Bool) :
    ¬ (if zero then nan else infinite negative).isFinite = true := by
  split <;> decide +revert

theorem isFinite_of_add (h : (x + y).isFinite = true) : x.isFinite = true ∧ y.isFinite = true := by
  change (add x y).isFinite = true at h
  cases x with
  | nan => cases h
  | infinite s =>
    cases y with
    | nan => cases h
    | finite t b => cases h
    | infinite t =>
      cases s <;> cases t <;> cases h
  | finite s a =>
    cases y with
    | nan => cases h
    | infinite t => cases h
    | finite t b => exact ⟨rfl, rfl⟩

theorem isFinite_of_sub (h : (x - y).isFinite = true) : x.isFinite = true ∧ y.isFinite = true := by
  obtain ⟨left, right⟩ := isFinite_of_add (x := x) (y := -y) h
  exact ⟨left, isFinite_neg y ▸ right⟩

theorem isFinite_of_mul (h : (x * y).isFinite = true) : x.isFinite = true ∧ y.isFinite = true := by
  change (mul x y).isFinite = true at h
  cases x with
  | nan => cases h
  | infinite s =>
    cases y with
    | nan => cases h
    | infinite t => cases h
    | finite t b => exact absurd h (not_isFinite_ite_nan_infinite _ _)
  | finite s a =>
    cases y with
    | nan => cases h
    | infinite t => exact absurd h (not_isFinite_ite_nan_infinite _ _)
    | finite t b => exact ⟨rfl, rfl⟩

theorem isFinite_of_div (h : (x / y).isFinite = true) (hy : y.isFinite = true) :
    x.isFinite = true := by
  change (div x y).isFinite = true at h
  cases x with
  | finite s a => rfl
  | nan => cases h
  | infinite s =>
    cases y with
    | nan => cases hy
    | infinite t => cases hy
    | finite t b => cases h

/-- A divisor that is finite and not below one leaves what is finite so, and what is not too. -/
theorem isFinite_div_iff (hy : y.value? = some q) (large : 1 ≤ q) :
    (x / y).isFinite = true ↔ x.isFinite = true :=
  ⟨fun finite => isFinite_of_div finite (isFinite_of_value? hy),
    fun finite => isFinite_div finite hy large⟩

end Binary32

end SpectrumViewer
