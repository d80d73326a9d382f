import SpectrumViewer.Proofs.Number.Grammar
import SpectrumViewer.Proofs.Number.Value

set_option autoImplicit false

/-!
Numerals as single-precision values. A numeral stands for an exact number, and it is read as the
value that comes of rounding that number to the nearest (`Decimal.toBinary32_nearest`), for numerals
of any length and any power of ten.
-/

namespace SpectrumViewer

open BinaryFormat (single)

namespace Binary32

/-- The value comes of rounding a number to the nearest magnitude, of two equally near ones to that
with the even code. The magnitudes go on in the same steps beyond the largest finite value, and
what becomes one of those is an infinity. -/
inductive Nearest : ℚ → Binary32 → Prop where
  | intro {q : ℚ} {negative : Bool} {code : Nat} : single.IsNearest code (|q| * one) →
      (q < 0 → negative = true) → (0 < q → negative = false) → Nearest q (ofCode negative code)

theorem ofCode_min (negative : Bool) (code : Nat) :
    ofCode negative (min code single.infinityCode) = ofCode negative code := by
  unfold ofCode
  by_cases finite : code < single.infinityCode
  · simp only [Nat.min_eq_left finite.le]
  · simp only [Nat.min_eq_right (Nat.le_of_not_lt finite), Nat.lt_irrefl, finite, dite_false]

theorem abs_ofCode (negative : Bool) (code : Nat) :
    (ofCode negative code).abs = ofCode false code := by
  unfold ofCode
  split <;> rfl

@[simp] theorem isFinite_abs (x : Binary32) : x.abs.isFinite = x.isFinite := by
  cases x <;> rfl

theorem Nearest.abs_eq {q : ℚ} {x y : Binary32} (hx : Nearest q x) (hy : Nearest q y) :
    x.abs = y.abs := by
  obtain ⟨nearestX, -, -⟩ := hx
  obtain ⟨nearestY, -, -⟩ := hy
  rw [abs_ofCode, abs_ofCode, nearestX.unique nearestY]

theorem nearest_ofCode {negative : Bool} {code n : Nat} {scale : ℚ} (positive : 0 < scale)
    (nearest : single.IsNearest code (n * scale * one)) :
    Nearest (signed negative n * scale) (ofCode negative code) := by
  have nonneg : (0 : ℚ) ≤ n * scale := mul_nonneg (Nat.cast_nonneg n) positive.le
  refine .intro ?_ ?_ ?_
  · rwa [abs_mul, abs_signed, abs_of_pos positive]
  · intro below
    cases negative with
    | true => rfl
    | false =>
      rw [signed_false, Int.cast_natCast] at below
      exact absurd below (not_lt.mpr nonneg)
  · intro above
    cases negative with
    | false => rfl
    | true =>
      rw [signed_true, Int.cast_neg, Int.cast_natCast, neg_mul] at above
      exact absurd (neg_pos.mp above) (not_lt.mpr nonneg)

theorem units_infinityCode : single.units single.infinityCode = 2 ^ 128 * one := by
  decide +kernel

theorem cast_units_infinityCode : (single.units single.infinityCode : ℚ) = 2 ^ 128 * one := by
  rw [units_infinityCode]
  push_cast
  rfl

theorem cast_units_last :
    (single.units (single.infinityCode - 1) : ℚ) = (2 ^ 128 - 2 ^ 104) * one := by
  rw [show single.infinityCode - 1 = 0x7F7FFFFF from rfl, units_largest, largest]
  norm_num

variable {amount : ℚ} {code : Nat}

/-- From half a step above the largest finite magnitude on, the nearest magnitude is beyond it: at
the half the code of infinity is the even one of the two. -/
theorem lt_of_lt_infinityCode (nearest : single.IsNearest code amount)
    (finite : code < single.infinityCode) : amount < (2 ^ 128 - 2 ^ 103) * one := by
  have above := cast_units_infinityCode
  have below := cast_units_last
  have positive := one_pos
  by_contra! large
  have short : amount < single.units single.infinityCode := by
    by_contra! long
    exact absurd (nearest.le_of_ge long) (Nat.not_le_of_lt finite)
  have inRange : (single.units code : ℚ) ≤ single.units (single.infinityCode - 1) :=
    mod_cast single.units_strictMono.monotone (Nat.le_sub_one_of_lt finite)
  have near := nearest.closest single.infinityCode
  rw [abs_of_nonpos (by linarith), abs_of_pos (by linarith)] at near
  have same : code = single.infinityCode - 1 := by
    apply single.units_strictMono.injective
    exact_mod_cast (by linarith :
      (single.units code : ℚ) = single.units (single.infinityCode - 1))
  have even : Even code := by
    refine nearest.even finite.ne' ?_
    rw [abs_of_nonpos (by linarith), abs_of_pos (by linarith)]
    linarith
  rw [same] at even
  exact absurd even (by decide)

theorem lt_infinityCode_of_lt (nearest : single.IsNearest code amount)
    (small : amount < (2 ^ 128 - 2 ^ 103) * one) : code < single.infinityCode := by
  have above := cast_units_infinityCode
  have below := cast_units_last
  have positive := one_pos
  by_contra! beyond
  have notBelow : (single.units (single.infinityCode - 1) : ℚ) < amount := by
    by_contra! low
    exact absurd (beyond.trans (nearest.le_of_le low)) (by decide)
  have same : code = single.infinityCode :=
    (nearest.le_of_le (by linarith)).antisymm beyond
  have near := nearest.closest (single.infinityCode - 1)
  rw [same, abs_of_pos (by linarith), abs_of_neg (by linarith)] at near
  linarith

/-- A number becomes an infinity from half a step above the largest finite value on. -/
theorem Nearest.isFinite_iff {q : ℚ} {x : Binary32} (h : Nearest q x) :
    x.isFinite = true ↔ |q| < 2 ^ 128 - 2 ^ 103 := by
  obtain @⟨negative, code, nearest, -, -⟩ := h
  have finite : (ofCode negative code).isFinite = true ↔ code < single.infinityCode := by
    unfold ofCode
    split <;> simp [isFinite, *]
  have scaled : |q| < 2 ^ 128 - 2 ^ 103 ↔ |q| * one < (2 ^ 128 - 2 ^ 103) * one :=
    (mul_lt_mul_iff_left₀ one_pos).symm
  rw [finite, scaled]
  exact ⟨lt_of_lt_infinityCode nearest, lt_infinityCode_of_lt nearest⟩

theorem isNearest_zero {q : ℚ} (nonneg : 0 ≤ q) (small : q < 1 / 2) : single.IsNearest 0 q := by
  have far {other : Nat} (nonzero : other ≠ 0) : q < |(single.units other : ℚ) - q| := by
    have step : single.units 0 < single.units other :=
      single.units_strictMono (Nat.pos_of_ne_zero nonzero)
    have atLeast : (1 : ℚ) ≤ single.units other := mod_cast step
    rw [abs_of_nonneg (by linarith)]
    linarith
  constructor
  · intro other
    rw [units_zero, Nat.cast_zero, zero_sub, abs_neg, abs_of_nonneg nonneg]
    by_cases zero : other = 0
    · rw [zero, units_zero, Nat.cast_zero, zero_sub, abs_neg, abs_of_nonneg nonneg]
    · exact (far zero).le
  · intro other _ _
    exact Even.zero

end Binary32

namespace Decimal

open Binary32 (one signed)

/-- The exact number that a numeral stands for. -/
def value (d : Decimal) : ℚ := signed d.negative d.significand * 10 ^ d.exponent

theorem abs_value (d : Decimal) : |d.value| = d.significand * 10 ^ d.exponent := by
  rw [value, abs_mul, Binary32.abs_signed, abs_of_pos (zpow_pos (by norm_num) _)]

theorem code_of_large {d : Decimal} (nonzero : d.significand ≠ 0)
    (large : (bound : Int) < d.exponent) :
    ∃ code, single.infinityCode ≤ code ∧ single.IsNearest code (|d.value| * one) := by
  obtain ⟨e, power⟩ : ∃ e : Nat, d.exponent = e := ⟨d.exponent.toNat, by omega⟩
  obtain ⟨code, -, nearest⟩ := BinaryFormat.exists_isNearest (f := single) (by decide)
    (d.significand * 10 ^ e * one) Nat.one_pos
  have exact : ((d.significand * 10 ^ e * one : Nat) : ℚ) / (1 : Nat) = |d.value| * one := by
    rw [abs_value, power, zpow_natCast]
    push_cast
    ring
  rw [exact] at nearest
  refine ⟨code, nearest.le_of_ge ?_, nearest⟩
  rw [Binary32.units_infinityCode, ← exact, Nat.cast_one, div_one]
  have base : (2 : Nat) ^ 128 ≤ 10 ^ bound := by decide +kernel
  have raised : 10 ^ bound ≤ 10 ^ e := Nat.pow_le_pow_right (by decide) (by omega)
  have times : 10 ^ e ≤ d.significand * 10 ^ e :=
    Nat.le_mul_of_pos_left _ (Nat.pos_of_ne_zero nonzero)
  exact_mod_cast Nat.mul_le_mul_right one (base.trans (raised.trans times))

theorem isNearest_of_small {d : Decimal}
    (small : d.exponent + (Nat.toDigits 10 d.significand).length < -(bound : Int)) :
    single.IsNearest 0 (|d.value| * one) := by
  apply Binary32.isNearest_zero
  · exact mul_nonneg (abs_nonneg _) Binary32.one_pos.le
  set length := (Nat.toDigits 10 d.significand).length
  have digits : d.significand < 10 ^ length :=
    (Nat.length_toDigits_le_iff (by decide) Nat.length_toDigits_pos).mp le_rfl
  have ten : (0 : ℚ) < 10 := by norm_num
  have below : |d.value| ≤ 10 ^ (-(bound : Int)) := by
    calc |d.value| = d.significand * 10 ^ d.exponent := abs_value d
      _ ≤ 10 ^ (length : Int) * 10 ^ d.exponent := by
        refine mul_le_mul_of_nonneg_right ?_ (zpow_pos ten _).le
        rw [zpow_natCast]
        exact_mod_cast digits.le
      _ = 10 ^ (length + d.exponent) := (zpow_add₀ ten.ne' _ _).symm
      _ ≤ 10 ^ (-(bound : Int)) := zpow_le_zpow_right₀ (by norm_num) (by omega)
  calc |d.value| * one ≤ 10 ^ (-(bound : Int)) * one :=
        mul_le_mul_of_nonneg_right below Binary32.one_pos.le
    _ < 1 / 2 := by
      rw [zpow_neg, zpow_natCast, inv_mul_lt_iff₀ (by positivity)]
      have base : 2 * one < 10 ^ bound := by decide +kernel
      have : (2 : ℚ) * one < 10 ^ bound := mod_cast base
      linarith

theorem exists_code (d : Decimal) :
    ∃ code, d.code single = min code single.infinityCode ∧
      single.IsNearest code (|d.value| * one) := by
  rw [code]
  dsimp only
  by_cases zero : d.significand = 0
  · rw [if_pos zero]
    refine ⟨0, rfl, Binary32.isNearest_zero ?_ ?_⟩ <;> rw [abs_value, zero] <;> norm_num
  rw [if_neg zero]
  by_cases large : (bound : Int) < d.exponent
  · rw [if_pos large]
    obtain ⟨code, beyond, nearest⟩ := code_of_large zero large
    exact ⟨code, (Nat.min_eq_right beyond).symm, nearest⟩
  rw [if_neg large]
  by_cases small : d.exponent < -(bound : Int) ∧
      d.exponent + (Nat.toDigits 10 d.significand).length < -(bound : Int)
  · rw [if_pos small]
    exact ⟨0, rfl, isNearest_of_small small.2⟩
  rw [if_neg small, abs_value]
  cases power : d.exponent with
  | ofNat e =>
    have exact : ((d.significand * 10 ^ e * one : Nat) : ℚ) / (1 : Nat) =
        d.significand * 10 ^ (Int.ofNat e) * one := by
      rw [Int.ofNat_eq_natCast, zpow_natCast]
      push_cast
      ring
    rw [← exact]
    exact BinaryFormat.exists_isNearest (by decide) _ Nat.one_pos
  | negSucc e =>
    have exact : ((d.significand * one : Nat) : ℚ) / (10 ^ (e + 1) : Nat) =
        d.significand * 10 ^ (Int.negSucc e) * one := by
      rw [zpow_negSucc]
      push_cast
      ring
    rw [← exact]
    exact BinaryFormat.exists_isNearest (by decide) _ (Nat.pow_pos (by decide))

/-- A numeral is read as the value nearest to the exact number that it stands for. -/
theorem toBinary32_nearest (d : Decimal) : Binary32.Nearest d.value d.toBinary32 := by
  obtain ⟨code, limited, nearest⟩ := d.exists_code
  have power : (0 : ℚ) < 10 ^ d.exponent := zpow_pos (by norm_num) _
  rw [abs_value] at nearest
  rw [toBinary32, limited, Binary32.ofCode_min]
  exact Binary32.nearest_ofCode power nearest

end Decimal

end SpectrumViewer
