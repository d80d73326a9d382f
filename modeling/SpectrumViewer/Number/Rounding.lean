set_option autoImplicit false

/-!
Rounding exact quotients and roots of natural numbers to whole numbers. A quotient is given as
a numerator and a positive denominator, so nothing is lost before the rounding itself.
-/

namespace SpectrumViewer

/-- The whole number nearest to `num / den`; of two equally near the even one. -/
def roundHalfEven (num den : Nat) : Nat :=
  let q := num / den
  let r := num % den
  if 2 * r < den then q
  else if den < 2 * r then q + 1
  else q + q % 2

/-- The whole number nearest to `num / den`; of two equally near the larger one. -/
def roundHalfUp (num den : Nat) : Nat := (2 * num + den) / (2 * den)

/-- The largest number whose square is at most `n`, for `n < 4 ^ pairs`: the root of a number
is that of its quarter, doubled, and possibly one more. -/
def floorSqrtOf : (pairs : Nat) → (n : Nat) → Nat
  | 0, _ => 0
  | pairs + 1, n =>
    let r := 2 * floorSqrtOf pairs (n / 4)
    if (r + 1) * (r + 1) ≤ n then r + 1 else r

/-- The largest number whose square is at most `n`. -/
def floorSqrt (n : Nat) : Nat := floorSqrtOf (n.log2 / 2 + 1) n

theorem roundHalfEven_zero (den : Nat) (h : 0 < den) : roundHalfEven 0 den = 0 := by
  simp [roundHalfEven, h]

theorem floorSqrtOf_sq_le (pairs n : Nat) :
    floorSqrtOf pairs n * floorSqrtOf pairs n ≤ n := by
  induction pairs generalizing n with
  | zero => simp [floorSqrtOf]
  | succ pairs ih =>
    have hq := ih (n / 4)
    have hs : 2 * floorSqrtOf pairs (n / 4) * (2 * floorSqrtOf pairs (n / 4)) =
        4 * (floorSqrtOf pairs (n / 4) * floorSqrtOf pairs (n / 4)) := by
      simp only [Nat.mul_assoc, Nat.mul_left_comm _ 2]
      omega
    simp only [floorSqrtOf]
    split
    · assumption
    · omega

end SpectrumViewer
