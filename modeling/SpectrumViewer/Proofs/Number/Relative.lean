import SpectrumViewer.Proofs.Number.Order

set_option autoImplicit false

/-!
Errors in proportion to what they are errors of. A product or a quotient is off by a small part of
itself, and such parts add up from one operation to the next (`Close.mul`, `Close.div`), as long as
the results are of moderate size: smaller ones lose last places, larger ones overflow.
-/

namespace SpectrumViewer

namespace Binary32

variable {x y : Binary32} {p q v w : ℚ} {i j k l n : Nat}

/-- Zero, or a number whose size is between a power of two and its inverse. -/
def Moderate (n : Nat) (q : ℚ) : Prop := q = 0 ∨ 1 / 2 ^ n ≤ |q| ∧ |q| ≤ 2 ^ n

theorem Moderate.mono (h : Moderate i q) (le : i ≤ j) : Moderate j q := by
  have wider : (2 : ℚ) ^ i ≤ 2 ^ j := pow_le_pow_right₀ one_le_two le
  refine h.imp_right fun ⟨least, most⟩ => ⟨?_, most.trans wider⟩
  exact (one_div_le_one_div_of_le (by positivity) wider).trans least

theorem Moderate.neg (h : Moderate n q) : Moderate n (-q) := by
  rwa [Moderate, neg_eq_zero, abs_neg]

theorem Moderate.mul (hp : Moderate i p) (hq : Moderate j q) : Moderate (i + j) (p * q) := by
  rcases hp with rfl | ⟨leastP, mostP⟩
  · exact Or.inl (zero_mul q)
  rcases hq with rfl | ⟨leastQ, mostQ⟩
  · exact Or.inl (mul_zero p)
  right
  rw [abs_mul, pow_add, ← one_div_mul_one_div]
  exact ⟨mul_le_mul leastP leastQ (by positivity) (abs_nonneg p),
    mul_le_mul mostP mostQ (abs_nonneg q) (by positivity)⟩

theorem Moderate.inv (h : Moderate n q) : Moderate n q⁻¹ := by
  rcases h with rfl | ⟨least, most⟩
  · exact Or.inl inv_zero
  have unit : (0 : ℚ) < 1 / 2 ^ n := by positivity
  have positive : 0 < |q| := unit.trans_le least
  right
  rw [abs_inv, ← one_div]
  refine ⟨one_div_le_one_div_of_le positive most, ?_⟩
  rwa [one_div_le positive (by positivity)]

theorem Moderate.div (hp : Moderate i p) (hq : Moderate j q) : Moderate (i + j) (p / q) := by
  rw [div_eq_mul_inv]
  exact hp.mul hq.inv

/-- The part of a result of moderate size that an operation is off by, with something to spare for
the errors of errors. -/
def unitError : ℚ := 5 / 2 ^ 26

/-- A finite value that is no further from a number than `k` roundings bring it. -/
def Close (k : Nat) (x : Binary32) (q : ℚ) : Prop :=
  ∃ v, x.value? = some v ∧ |v - q| ≤ k * unitError * |q|

theorem close_of_value? (value : x.value? = some q) : Close 0 x q :=
  ⟨q, value, by rw [sub_self, abs_zero, Nat.cast_zero, zero_mul, zero_mul]⟩

theorem Close.neg (h : Close k x q) : Close k (-x) (-q) := by
  obtain ⟨v, value, near⟩ := h
  refine ⟨-v, by rw [value?_neg, value]; rfl, ?_⟩
  rwa [neg_sub_neg, abs_sub_comm, abs_neg]

theorem Close.sub_zero (h : Close k x q) : Close k (x - 0) q := by
  obtain ⟨v, value, near⟩ := h
  exact ⟨v, value?_sub_zero value, near⟩

theorem errors_le (few : k ≤ 8) : 0 ≤ k * unitError ∧ k * unitError ≤ 5 / 2 ^ 23 := by
  have count : (k : ℚ) ≤ 8 := mod_cast few
  have nonneg : (0 : ℚ) ≤ k := Nat.cast_nonneg k
  rw [unitError]
  constructor <;> linarith

/-- One more rounding, of a number that is as close as `k` roundings and their errors leave it. -/
theorem IsRounding.close (h : x.IsRounding w) (few : k ≤ 8) (moderate : Moderate 122 q)
    (near : |w - q| ≤ (k * unitError + 1 / 2 ^ 30) * |q|) : Close (k + 1) x q := by
  rcases moderate with rfl | ⟨least, most⟩
  · have none : w = 0 := by simpa using near
    have exact := h.rounds.exact_of_eq none representable_zero
    exact ⟨0, exact, by simp⟩
  obtain ⟨nonneg, small⟩ := errors_le few
  have part : (k * unitError + 1 / 2 ^ 30) * |q| ≤ 1 / 2 ^ 20 * |q| :=
    mul_le_mul_of_nonneg_right (by linarith) (abs_nonneg q)
  have size : |w| ≤ |q| + 1 / 2 ^ 20 * |q| := by
    have triangle := abs_sub_abs_le_abs_sub w q
    linarith
  obtain ⟨v, value, error⟩ := h.exists_near (by linarith)
  refine ⟨v, value, ?_⟩
  have lost : (1 : ℚ) / 2 ^ 150 ≤ 1 / 2 ^ 28 * |q| := by linarith
  calc |v - q| ≤ |v - w| + |w - q| := abs_sub_le v w q
    _ ≤ (|w| / 2 ^ 24 + 1 / 2 ^ 150) + (k * unitError + 1 / 2 ^ 30) * |q| := add_le_add error near
    _ ≤ k * unitError * |q| + unitError * |q| := by
      rw [unitError]
      linarith
    _ = (k + 1 : Nat) * unitError * |q| := by
      push_cast
      ring

theorem close_sub (hx : x.value? = some p) (hy : y.value? = some q)
    (moderate : Moderate 122 (p - q)) : Close 1 (x - y) (p - q) := by
  apply (isRounding_sub hx hy).close (k := 0) (Nat.zero_le 8) moderate
  rw [sub_self, abs_zero, Nat.cast_zero, zero_mul, zero_add]
  positivity

theorem Close.mul (hx : Close k x p) (hy : Close l y q) (errors : k + l + 1 = n) (few : n ≤ 9)
    (moderate : Moderate 122 (p * q)) : Close n (x * y) (p * q) := by
  subst errors
  obtain ⟨v, valueX, nearX⟩ := hx
  obtain ⟨w, valueY, nearY⟩ := hy
  apply (isRounding_mul valueX valueY).close (Nat.le_of_succ_le_succ few) moderate
  obtain ⟨nonnegK, smallK⟩ := errors_le (k := k) (by omega)
  obtain ⟨nonnegL, smallL⟩ := errors_le (k := l) (by omega)
  have square : k * unitError * (l * unitError) ≤ 1 / 2 ^ 30 :=
    (mul_le_mul smallK smallL nonnegL (by positivity)).trans (by norm_num)
  have split : v * w - p * q = (v - p) * q + p * (w - q) + (v - p) * (w - q) := by ring
  calc |v * w - p * q| ≤ |v - p| * |q| + |p| * |w - q| + |v - p| * |w - q| := by
        rw [split, ← abs_mul, ← abs_mul, ← abs_mul]
        exact (abs_add_le _ _).trans (add_le_add (abs_add_le _ _) le_rfl)
    _ ≤ k * unitError * |p| * |q| + |p| * (l * unitError * |q|) +
        k * unitError * |p| * (l * unitError * |q|) := by
      gcongr
    _ = (k * unitError + l * unitError + k * unitError * (l * unitError)) * (|p| * |q|) := by ring
    _ ≤ ((k + l : Nat) * unitError + 1 / 2 ^ 30) * |p * q| := by
      rw [abs_mul, Nat.cast_add, add_mul (k : ℚ)]
      gcongr

theorem Close.div (hx : Close k x p) (hy : y.value? = some q) (nonzero : q ≠ 0)
    (errors : k + 1 = n) (few : n ≤ 9) (moderate : Moderate 122 (p / q)) :
    Close n (x / y) (p / q) := by
  subst errors
  obtain ⟨v, value, near⟩ := hx
  apply (isRounding_div value hy nonzero).close (Nat.le_of_succ_le_succ few) moderate
  calc |v / q - p / q| = |v - p| / |q| := by rw [← sub_div, abs_div]
    _ ≤ k * unitError * |p| / |q| := by gcongr
    _ = k * unitError * |p / q| := by rw [abs_div, mul_div_assoc]
    _ ≤ (k * unitError + 1 / 2 ^ 30) * |p / q| := by
      gcongr
      exact le_add_of_nonneg_right (by positivity)

/-- A sum is off by a small part of what bounds it and the inexact summand. -/
theorem Close.exists_add (hx : x.value? = some p) (hy : Close k y q) (few : k ≤ 8) {bound : ℚ}
    (summand : |q| ≤ bound) (sum : |p + q| ≤ bound) (least : 1 / 2 ≤ bound)
    (most : bound ≤ 2 ^ 100) :
    ∃ v, (x + y).value? = some v ∧ |v - (p + q)| ≤ (k + 1) * unitError * bound := by
  obtain ⟨w, value, near⟩ := hy
  obtain ⟨nonneg, small⟩ := errors_le few
  have error : |w - q| ≤ k * unitError * bound := near.trans (by gcongr)
  have part : k * unitError * bound ≤ 1 / 2 ^ 20 * bound :=
    mul_le_mul_of_nonneg_right (by linarith) (by linarith)
  have shifted : p + w - (p + q) = w - q := add_sub_add_left_eq_sub w q p
  have size : |p + w| ≤ bound + 1 / 2 ^ 20 * bound := by
    have triangle := abs_sub_abs_le_abs_sub (p + w) (p + q)
    rw [shifted] at triangle
    linarith
  obtain ⟨v, total, rounding⟩ := (isRounding_add hx value).exists_near (by linarith)
  refine ⟨v, total, ?_⟩
  calc |v - (p + q)| ≤ |v - (p + w)| + |p + w - (p + q)| := abs_sub_le _ _ _
    _ ≤ (|p + w| / 2 ^ 24 + 1 / 2 ^ 150) + k * unitError * bound := by
      rw [shifted]
      exact add_le_add rounding error
    _ ≤ k * unitError * bound + unitError * bound := by
      rw [unitError]
      linarith
    _ = (k + 1) * unitError * bound := by ring

end Binary32

end SpectrumViewer
