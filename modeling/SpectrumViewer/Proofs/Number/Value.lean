import SpectrumViewer.Number.Binary32
import SpectrumViewer.Number.Word
import SpectrumViewer.Proofs.Number.Nearest

set_option autoImplicit false

/-!
Single-precision arithmetic on rational numbers. An operation rounds its exact result, and rounding
never passes a number that some value stands for (`Rounds`), so bounds on the operands that such
numbers give carry over to the result.
-/

namespace SpectrumViewer

open BinaryFormat (single)

namespace Binary32

/-- The number that a finite value stands for. -/
def value? : Binary32 → Option ℚ
  | finite negative code => some (signed negative (single.units code) / one)
  | _ => none

/-- A finite value that no other one is nearer to the number than; of two equally near ones it is
that with the even code. -/
def IsNearest (x : Binary32) (q : ℚ) : Prop :=
  ∃ negative code v, x = finite negative code ∧ x.value? = some v ∧
    ∀ y u, value? y = some u →
      |v - q| ≤ |u - q| ∧ (|v - q| = |u - q| → u = v ∨ Even code.val)

def Representable (q : ℚ) : Prop := ∃ x : Binary32, x.value? = some q

/-- A finite value between two numbers. -/
def Within (x : Binary32) (low high : ℚ) : Prop := ∃ v, x.value? = some v ∧ low ≤ v ∧ v ≤ high

/-- No representable number separates the value from the number. -/
def Rounds (x : Binary32) (q : ℚ) : Prop :=
  ∀ low high, Representable low → Representable high → low ≤ q → q ≤ high → x.Within low high

theorem cast_one_eq : (one : ℚ) = 2 ^ 149 := by
  rw [one, Nat.pow_eq, Nat.cast_pow, Nat.cast_ofNat]

theorem one_pos : (0 : ℚ) < one := by
  rw [cast_one_eq]
  positivity

theorem units_div_nonneg (code : Nat) : (0 : ℚ) ≤ single.units code / one :=
  div_nonneg (Nat.cast_nonneg _) one_pos.le

@[simp] theorem signed_false (n : Nat) : signed false n = n := rfl

@[simp] theorem signed_true (n : Nat) : signed true n = -n := rfl

theorem value?_of_units {code : Fin single.infinityCode} {n : Nat} {q : ℚ}
    (units : single.units code = n) (same : (n : ℚ) / 2 ^ 149 = q) :
    (finite false code).value? = some q := by
  rw [value?, units, signed_false, Int.cast_natCast, cast_one_eq, same]

theorem signed_mul (s t : Bool) (m n : Nat) :
    signed (s != t) (m * n) = signed s m * signed t n := by
  cases s <;> cases t <;> simp

theorem signed_natAbs (n : Int) : signed (decide (n < 0)) n.natAbs = n := by
  by_cases negative : n < 0
  · rw [decide_eq_true negative, signed_true]
    omega
  · rw [decide_eq_false negative, signed_false]
    omega

theorem value?_neg (x : Binary32) : (-x).value? = x.value?.map Neg.neg := by
  show (neg x).value? = _
  cases x with
  | nan => rfl
  | infinite s => rfl
  | finite s c =>
    cases s <;> simp [neg, value?, neg_div]

theorem Representable.neg {q : ℚ} (h : Representable q) : Representable (-q) := by
  obtain ⟨x, value⟩ := h
  exact ⟨-x, by rw [value?_neg, value]; rfl⟩

theorem Within.neg {x : Binary32} {low high : ℚ} (h : x.Within low high) :
    (-x).Within (-high) (-low) := by
  obtain ⟨v, value, above, below⟩ := h
  exact ⟨-v, by rw [value?_neg, value]; rfl, neg_le_neg below, neg_le_neg above⟩

theorem Rounds.neg {x : Binary32} {q : ℚ} (h : x.Rounds q) : (-x).Rounds (-q) := by
  intro low high lowest highest above below
  have within := h (-high) (-low) highest.neg lowest.neg (by linarith) (by linarith)
  simpa using within.neg

/-- A representable number that is not negative is a whole number of units. -/
theorem Representable.units {q : ℚ} (h : Representable q) (nonneg : 0 ≤ q) :
    ∃ code, code < single.infinityCode ∧ q * one = single.units code := by
  obtain ⟨x, value⟩ := h
  cases x with
  | nan => cases value
  | infinite s => cases value
  | finite s c =>
    obtain rfl := Option.some.inj value
    refine ⟨c, c.isLt, ?_⟩
    rw [div_mul_cancel₀ _ one_pos.ne']
    cases s with
    | false => simp
    | true =>
      have zero : (single.units c : ℚ) ≤ 0 := by
        rw [le_div_iff₀ one_pos] at nonneg
        simpa using nonneg
      have := Nat.cast_nonneg (α := ℚ) (single.units c)
      push_cast [signed_true]
      linarith

theorem exists_ofCode_nearest {num den : Nat} (positive : 0 < den) {q : ℚ} (high : Representable q)
    (below : (num : ℚ) / (den * one) ≤ q) :
    ∃ code : Fin single.infinityCode, rounded false num den = finite false code ∧
      single.IsNearest code (num / den) := by
  have denominator : (0 : ℚ) < den := mod_cast positive
  have nonneg : (0 : ℚ) ≤ num / (den * one) :=
    div_nonneg (Nat.cast_nonneg _) (mul_pos denominator one_pos).le
  obtain ⟨bound, finite, units⟩ := high.units (nonneg.trans below)
  obtain ⟨code, nearest, closest⟩ :=
    BinaryFormat.exists_isNearest (f := single) (by decide) num positive
  have small : code ≤ bound := by
    apply closest.le_of_le
    rw [← units, div_le_iff₀ denominator]
    rw [div_le_iff₀ (mul_pos denominator one_pos)] at below
    linarith
  have codeFinite : code < single.infinityCode := small.trans_lt finite
  refine ⟨⟨code, codeFinite⟩, ?_, closest⟩
  rw [rounded, nearest, Nat.min_eq_left codeFinite.le, ofCode, dif_pos codeFinite]

theorem rounds_rounded_false (num : Nat) {den : Nat} (positive : 0 < den) :
    (rounded false num den).Rounds (num / (den * one)) := by
  intro low high lowest highest above below
  have nonneg : (0 : ℚ) ≤ num / (den * one) :=
    div_nonneg (Nat.cast_nonneg _) (mul_pos (mod_cast positive) one_pos).le
  have exact : (num : ℚ) / den = num / (den * one) * one := by
    rw [← div_div, div_mul_cancel₀ _ one_pos.ne']
  obtain ⟨code, same, nearest⟩ := exists_ofCode_nearest positive highest below
  have ordered {first second : Nat} (h : first ≤ second) :
      (single.units first : ℚ) ≤ single.units second :=
    mod_cast single.units_strictMono.monotone h
  have value : (rounded false num den).value? = some (single.units code / one : ℚ) := by
    rw [same, value?, signed_false, Int.cast_natCast]
  refine ⟨single.units code / one, value, ?_, ?_⟩
  · rcases le_total low 0 with negative | lowNonneg
    · exact negative.trans (div_nonneg (Nat.cast_nonneg _) one_pos.le)
    · obtain ⟨other, -, units⟩ := lowest.units lowNonneg
      rw [le_div_iff₀ one_pos, units]
      apply ordered
      apply nearest.le_of_ge
      rw [← units, exact]
      exact mul_le_mul_of_nonneg_right above one_pos.le
  · obtain ⟨other, -, units⟩ := highest.units (nonneg.trans below)
    rw [div_le_iff₀ one_pos, units]
    apply ordered
    apply nearest.le_of_le
    rw [← units, exact]
    exact mul_le_mul_of_nonneg_right below one_pos.le

theorem rounded_true (num den : Nat) : rounded true num den = -rounded false num den := by
  have negated : -rounded false num den = neg (rounded false num den) := rfl
  rw [negated, rounded, rounded, ofCode, ofCode]
  split <;> rfl

theorem rounds_rounded (negative : Bool) (num : Nat) {den : Nat} (positive : 0 < den) :
    (rounded negative num den).Rounds (signed negative num / (den * one)) := by
  cases negative with
  | false => exact rounds_rounded_false num positive
  | true =>
    rw [rounded_true, signed_true, Int.cast_neg, neg_div]
    exact (rounds_rounded_false num positive).neg

theorem eq_finite_of_value? {x : Binary32} {v : ℚ} (h : x.value? = some v) :
    ∃ negative code, x = finite negative code ∧
      v = signed negative (single.units code.val) / one := by
  cases x with
  | nan => cases h
  | infinite s => cases h
  | finite s c => exact ⟨s, c, rfl, (Option.some.inj h).symm⟩

theorem finite_mul_finite (s t : Bool) (a b : Fin single.infinityCode) :
    finite s a * finite t b = rounded (s != t) (single.units a * single.units b) one := by
  show mul (finite s a) (finite t b) = _
  rw [mul]

/-- The value is what a number becomes that is rounded once. -/
def IsRounding (x : Binary32) (q : ℚ) : Prop :=
  ∃ negative num den, 0 < den ∧ x = rounded negative num den ∧ q = signed negative num / (den * one)

theorem IsRounding.rounds {x : Binary32} {q : ℚ} (h : x.IsRounding q) : x.Rounds q := by
  obtain ⟨negative, num, den, positive, rfl, rfl⟩ := h
  exact rounds_rounded negative num positive

theorem zeroOf_eq_rounded (negative : Bool) : zeroOf negative = rounded negative 0 1 := by
  cases negative <;> decide

section Operations

variable {x y : Binary32} {p q : ℚ} (hx : x.value? = some p) (hy : y.value? = some q)

include hx hy

theorem isRounding_add : (x + y).IsRounding (p + q) := by
  obtain ⟨s, a, rfl, rfl⟩ := eq_finite_of_value? hx
  obtain ⟨t, b, rfl, rfl⟩ := eq_finite_of_value? hy
  rw [← add_div, ← Int.cast_add]
  set sum := signed s (single.units a) + signed t (single.units b) with sum_eq
  have shape : finite s a + finite t b =
      if sum = 0 then zeroOf (s && t) else rounded (decide (sum < 0)) sum.natAbs 1 := rfl
  rw [shape]
  by_cases zero : sum = 0
  · rw [if_pos zero, zero, zeroOf_eq_rounded]
    refine ⟨s && t, 0, 1, Nat.one_pos, rfl, ?_⟩
    cases s && t <;> simp
  · rw [if_neg zero]
    refine ⟨decide (sum < 0), sum.natAbs, 1, Nat.one_pos, rfl, ?_⟩
    rw [signed_natAbs, Nat.cast_one, one_mul]

theorem isRounding_sub : (x - y).IsRounding (p - q) := by
  have negated : (-y).value? = some (-q) := by rw [value?_neg, hy]; rfl
  rw [sub_eq_add_neg]
  exact isRounding_add hx negated

theorem isRounding_mul : (x * y).IsRounding (p * q) := by
  obtain ⟨s, a, rfl, rfl⟩ := eq_finite_of_value? hx
  obtain ⟨t, b, rfl, rfl⟩ := eq_finite_of_value? hy
  rw [finite_mul_finite, div_mul_div_comm, ← Int.cast_mul, ← signed_mul]
  exact ⟨_, _, _, mod_cast one_pos, rfl, rfl⟩

theorem isRounding_div (nonzero : q ≠ 0) : (x / y).IsRounding (p / q) := by
  obtain ⟨s, a, rfl, rfl⟩ := eq_finite_of_value? hx
  obtain ⟨t, b, rfl, rfl⟩ := eq_finite_of_value? hy
  have divisor : 0 < single.units b := by
    apply Nat.pos_of_ne_zero
    intro zero
    apply nonzero
    cases t <;> simp [zero]
  have code : b.val ≠ 0 := by
    intro zero
    rw [zero, units_zero] at divisor
    exact Nat.lt_irrefl 0 divisor
  have shape : finite s a / finite t b =
      rounded (s != t) (single.units a * one) (single.units b) := if_neg code
  have exact : (signed s (single.units a) / one : ℚ) / (signed t (single.units b) / one) =
      signed (s != t) (single.units a * one) / (single.units b * one) := by
    have unit := one_pos.ne'
    have units : (single.units b : ℚ) ≠ 0 := mod_cast divisor.ne'
    rw [signed_mul]
    cases t <;> push_cast [signed_false, signed_true] <;> field_simp
  rw [shape, exact]
  exact ⟨_, _, _, divisor, rfl, rfl⟩

theorem rounds_add : (x + y).Rounds (p + q) := (isRounding_add hx hy).rounds

theorem rounds_sub : (x - y).Rounds (p - q) := (isRounding_sub hx hy).rounds

theorem rounds_mul : (x * y).Rounds (p * q) := (isRounding_mul hx hy).rounds

theorem rounds_div (nonzero : q ≠ 0) : (x / y).Rounds (p / q) := (isRounding_div hx hy nonzero).rounds

end Operations

theorem isRounding_ofRatio (num : Nat) {den : Nat} (positive : 0 < den) :
    (ofRatio num den).IsRounding (num / den) := by
  refine ⟨false, num * one, den, positive, rfl, ?_⟩
  rw [signed_false, Int.cast_natCast, Nat.cast_mul, mul_div_mul_right _ _ one_pos.ne']

theorem isRounding_ofNat (n : Nat) : (ofNat n).IsRounding n := by
  have rounding := isRounding_ofRatio n Nat.one_pos
  rwa [Nat.cast_one, div_one] at rounding

theorem rounds_ofRatio (num : Nat) {den : Nat} (positive : 0 < den) :
    (ofRatio num den).Rounds (num / den) := (isRounding_ofRatio num positive).rounds

theorem rounds_ofNat (n : Nat) : (ofNat n).Rounds n := (isRounding_ofNat n).rounds

theorem representable_two_pow_div (shift : Nat) (small : shift < 254) :
    Representable (2 ^ (shift + 23) / 2 ^ 149) := by
  have units : single.units (shift * single.hidden + single.hidden) = single.hidden * 2 ^ shift :=
    BinaryFormat.units_mul_add (by omega) (Or.inr le_rfl)
  have finite : shift * single.hidden + single.hidden < single.infinityCode := by
    show shift * 8388608 + 8388608 < 0x7F800000
    omega
  refine ⟨.finite false ⟨_, finite⟩, congrArg some ?_⟩
  rw [signed_false, units, cast_one_eq, BinaryFormat.hidden, Nat.pow_eq, ← Nat.pow_add,
    Nat.add_comm]
  push_cast
  rfl

theorem representable_two_pow {k : Nat} (small : k < 128) : Representable (2 ^ k) := by
  have power := representable_two_pow_div (k + 126) (by omega)
  rwa [pow_add, pow_add, mul_assoc, ← pow_add, mul_div_cancel_right₀ _ (by positivity)] at power

theorem representable_half_pow {k : Nat} (small : k ≤ 126) : Representable (1 / 2 ^ k) := by
  have power := representable_two_pow_div (126 - k) (by omega)
  have whole : (2 : ℚ) ^ 149 = 2 ^ (126 - k + 23) * 2 ^ k := by
    rw [← pow_add]
    congr 1
    omega
  rwa [whole, div_mul_cancel_left₀ (by positivity), ← one_div] at power

/-- The largest finite value, in ones. -/
def largest : Nat := 0xFFFFFF * 2 ^ 104

theorem units_largest : single.units 0x7F7FFFFF = largest * one := by decide +kernel

theorem representable_largest : Representable largest := by
  refine ⟨finite false ⟨0x7F7FFFFF, by decide⟩, congrArg some ?_⟩
  rw [signed_false, units_largest, Int.cast_natCast, Nat.cast_mul,
    mul_div_cancel_right₀ _ one_pos.ne']

theorem units_le_largest (code : Fin single.infinityCode) : single.units code ≤ largest * one := by
  rw [← units_largest]
  exact single.units_strictMono.monotone (Nat.le_pred_of_lt code.isLt)

theorem representable_zero : Representable 0 := ⟨zeroOf false, by simp [zeroOf, value?, units_zero]⟩

theorem representable_one : Representable 1 := by
  simpa using representable_two_pow (k := 0) (by decide)

theorem within_ofNat {n k : Nat} (small : n ≤ 2 ^ k) (finite : k < 128) :
    (ofNat n).Within 0 (2 ^ k) := by
  apply rounds_ofNat n 0 _ representable_zero (representable_two_pow finite)
  · exact Nat.cast_nonneg n
  · exact_mod_cast small

theorem within_ofNat_of_pos {n k : Nat} (positive : 0 < n) (small : n ≤ 2 ^ k) (finite : k < 128) :
    (ofNat n).Within 1 (2 ^ k) := by
  apply rounds_ofNat n _ _ representable_one (representable_two_pow finite)
  · exact Nat.one_le_cast.mpr positive
  · exact_mod_cast small

theorem within_size {n : Nat} (block : n ≤ Word.largestBlock) : (ofNat n).Within 0 (2 ^ 63) :=
  within_ofNat (block.trans (by decide)) (by decide)

theorem within_size_of_pos {n : Nat} (positive : 0 < n) (block : n ≤ Word.largestBlock) :
    (ofNat n).Within 1 (2 ^ 63) :=
  within_ofNat_of_pos positive (block.trans (by decide)) (by decide)

theorem abs_signed (negative : Bool) (n : Nat) : |(signed negative n : ℚ)| = n := by
  cases negative <;> simp

section Bounds

variable {x y : Binary32} {a b c d low high : ℚ}

theorem Within.add (hx : x.Within a b) (hy : y.Within c d) (lowest : Representable low)
    (highest : Representable high) (above : low ≤ a + c) (below : b + d ≤ high) :
    (x + y).Within low high := by
  obtain ⟨p, valueX, aboveX, belowX⟩ := hx
  obtain ⟨q, valueY, aboveY, belowY⟩ := hy
  exact rounds_add valueX valueY low high lowest highest (by linarith) (by linarith)

theorem Within.sub (hx : x.Within a b) (hy : y.Within c d) (lowest : Representable low)
    (highest : Representable high) (above : low ≤ a - d) (below : b - c ≤ high) :
    (x - y).Within low high := by
  obtain ⟨p, valueX, aboveX, belowX⟩ := hx
  obtain ⟨q, valueY, aboveY, belowY⟩ := hy
  exact rounds_sub valueX valueY low high lowest highest (by linarith) (by linarith)

theorem Within.mul (hx : x.Within a b) (hy : y.Within c d) (nonnegX : 0 ≤ a) (nonnegY : 0 ≤ c)
    (lowest : Representable low) (highest : Representable high) (above : low ≤ a * c)
    (below : b * d ≤ high) : (x * y).Within low high := by
  obtain ⟨p, valueX, aboveX, belowX⟩ := hx
  obtain ⟨q, valueY, aboveY, belowY⟩ := hy
  apply rounds_mul valueX valueY low high lowest highest
  · exact above.trans (mul_le_mul aboveX aboveY nonnegY (nonnegX.trans aboveX))
  · exact (mul_le_mul belowX belowY (nonnegY.trans aboveY)
      (nonnegX.trans (aboveX.trans belowX))).trans below

theorem Within.mul_abs (hx : x.Within (-b) b) (hy : y.Within (-d) d)
    (highest : Representable high) (below : b * d ≤ high) : (x * y).Within (-high) high := by
  obtain ⟨p, valueX, boundsX⟩ := hx
  obtain ⟨q, valueY, boundsY⟩ := hy
  have product : |p * q| ≤ high := by
    rw [abs_mul]
    have magnitudeX := abs_le.mpr boundsX
    refine le_trans ?_ below
    exact mul_le_mul magnitudeX (abs_le.mpr boundsY) (abs_nonneg q)
      ((abs_nonneg p).trans magnitudeX)
  obtain ⟨above, below⟩ := abs_le.mp product
  exact rounds_mul valueX valueY (-high) high highest.neg highest above below

theorem Within.div {q : ℚ} (hx : x.Within a b) (hy : y.value? = some q) (positive : 0 < q)
    (lowest : Representable low) (highest : Representable high) (above : low * q ≤ a)
    (below : b ≤ high * q) : (x / y).Within low high := by
  obtain ⟨p, valueX, aboveX, belowX⟩ := hx
  apply rounds_div valueX hy positive.ne' low high lowest highest
  · exact (le_div_iff₀ positive).mpr (above.trans aboveX)
  · exact (div_le_iff₀ positive).mpr (belowX.trans below)

theorem within_of_abs_le {q : ℚ} (value : x.value? = some q) (small : |q| ≤ high) :
    x.Within (-high) high := ⟨q, value, abs_le.mp small⟩

theorem Within.mono (hx : x.Within a b) (above : low ≤ a) (below : b ≤ high) :
    x.Within low high := by
  obtain ⟨v, value, aboveX, belowX⟩ := hx
  exact ⟨v, value, above.trans aboveX, belowX.trans below⟩

theorem Within.eq_finite_false (hx : x.Within a b) (positive : 0 < a) :
    ∃ code, x = finite false code := by
  obtain ⟨v, value, above, -⟩ := hx
  obtain ⟨s, code, rfl, rfl⟩ := eq_finite_of_value? value
  cases s with
  | false => exact ⟨code, rfl⟩
  | true =>
    have below : ((signed true (single.units code) : Int) : ℚ) / one ≤ 0 := by
      apply div_nonpos_of_nonpos_of_nonneg _ one_pos.le
      simp
    linarith

theorem Within.eq_finite (hx : x.Within a b) : ∃ negative code, x = finite negative code := by
  obtain ⟨v, value, -, -⟩ := hx
  obtain ⟨s, code, same, -⟩ := eq_finite_of_value? value
  exact ⟨s, code, same⟩

theorem Within.sign_mul {s t : Bool} {m n : Fin single.infinityCode}
    (h : (finite s m * finite t n).Within a b) :
    ∃ code, finite s m * finite t n = finite (s != t) code := by
  rw [finite_mul_finite, rounded] at h ⊢
  unfold ofCode at h ⊢
  split
  · exact ⟨_, rfl⟩
  · rename_i large
    obtain ⟨v, value, -, -⟩ := h
    rw [dif_neg large] at value
    cases value

end Bounds

theorem exists_units_nearer {y : Binary32} {u q : ℚ} (value : y.value? = some u) (nonneg : 0 ≤ q) :
    ∃ code, |(single.units code / one : ℚ) - q| ≤ |u - q| ∧
      (|(single.units code / one : ℚ) - q| = |u - q| → u = single.units code / one) := by
  obtain ⟨t, code, rfl, rfl⟩ := eq_finite_of_value? value
  cases t with
  | false => exact ⟨code, le_rfl, fun _ => rfl⟩
  | true =>
    have magnitude := units_div_nonneg code
    have far : |((signed true (single.units code) : Int) / one : ℚ) - q| =
        single.units code / one + q := by
      rw [signed_true, Int.cast_neg, Int.cast_natCast, neg_div, abs_of_nonpos (by linarith)]
      ring
    refine ⟨0, ?_⟩
    rw [far, units_zero, Nat.cast_zero, zero_div, zero_sub, abs_neg, abs_of_nonneg nonneg]
    refine ⟨by linarith, fun same => ?_⟩
    rw [signed_true, Int.cast_neg, Int.cast_natCast, neg_div]
    linarith

/-- A quotient within the range of the format becomes the value nearest to it. -/
theorem isNearest_ofRatio {num den : Nat} (positive : 0 < den) {high : ℚ}
    (highest : Representable high) (below : (num : ℚ) / den ≤ high) :
    ∃ code, ofRatio num den = finite false code ∧ (ofRatio num den).IsNearest (num / den) := by
  have scaled : ((num * one : Nat) : ℚ) / (den * one) = num / den := by
    rw [Nat.cast_mul, mul_div_mul_right _ _ one_pos.ne']
  obtain ⟨code, same, nearest⟩ :=
    exists_ofCode_nearest positive highest (scaled.trans_le below)
  have distance (other : Nat) : |(single.units other / one : ℚ) - num / den| =
      |(single.units other : ℚ) - (num * one : Nat) / den| / one := by
    rw [← abs_of_pos one_pos, ← abs_div, abs_of_pos one_pos, sub_div, div_div, scaled]
  refine ⟨code, same, false, code, single.units code / one, same, by rw [ofRatio, same]; rfl, ?_⟩
  intro y u value
  obtain ⟨other, nearer, only⟩ :=
    exists_units_nearer value (div_nonneg (Nat.cast_nonneg num) (Nat.cast_nonneg den))
  have least : |(single.units code / one : ℚ) - num / den| ≤
      |(single.units other / one : ℚ) - num / den| := by
    rw [distance, distance]
    exact div_le_div_of_nonneg_right (nearest.closest other) one_pos.le
  refine ⟨least.trans nearer, fun tie => ?_⟩
  have equal := le_antisymm least (nearer.trans_eq tie.symm)
  have value := only (equal.symm.trans tie)
  by_cases same : other = code
  · exact Or.inl (by rw [value, same])
  · rw [distance, distance, div_left_inj' one_pos.ne'] at equal
    exact Or.inr (nearest.even same equal)

end Binary32

end SpectrumViewer
