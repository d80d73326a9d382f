import Mathlib.Algebra.Order.Floor.Semifield
import Mathlib.Data.Rat.Floor
import SpectrumViewer.Proofs.Number.Accuracy

set_option autoImplicit false

/-!
The order of values is that of the numbers that they stand for (`lt_iff`). The whole number below a
value and what is left above it are not rounded (`value?_ofNat_floor`, `value?_sub_ofNat_floor`).
-/

namespace SpectrumViewer

open BinaryFormat (single)

namespace BinaryFormat

variable {f : BinaryFormat}

theorem units_pos_iff {code : Nat} : 0 < f.units code ↔ 0 < code := by
  have zero : f.units 0 = 0 := f.units_of_lt hidden_pos
  calc 0 < f.units code ↔ f.units 0 < f.units code := by rw [zero]
    _ ↔ 0 < code := f.units_strictMono.lt_iff_lt

theorem exists_units_mod (f : BinaryFormat) (code power : Nat) :
    (∃ rest, f.units rest = f.units code % 2 ^ power) ∧
      ∃ whole, f.units whole = f.units code / 2 ^ power * 2 ^ power := by
  obtain ⟨shift, r, -, few, -, scaled⟩ := f.exists_units_eq code
  rw [scaled]
  have split := Nat.div_add_mod' (r * 2 ^ shift) (2 ^ power)
  rcases Nat.le_total power shift with dvd | shifted
  · obtain ⟨more, rfl⟩ := Nat.exists_eq_add_of_le dvd
    have none : r * 2 ^ (power + more) % 2 ^ power = 0 := by
      apply Nat.mod_eq_zero_of_dvd
      exact Dvd.dvd.mul_left (pow_dvd_pow 2 (Nat.le_add_right power more)) r
    refine ⟨⟨0, none.symm ▸ f.units_of_lt hidden_pos⟩, code, ?_⟩
    rw [scaled]
    omega
  · obtain ⟨more, rfl⟩ := Nat.exists_eq_add_of_le' shifted
    have rest : r * 2 ^ shift % 2 ^ (more + shift) = r % 2 ^ more * 2 ^ shift := by
      rw [Nat.pow_add, Nat.mul_mod_mul_right]
    have whole : r * 2 ^ shift / 2 ^ (more + shift) * 2 ^ (more + shift) =
        (r - r % 2 ^ more) * 2 ^ shift := by
      rw [Nat.sub_mul, ← rest]
      omega
    rw [rest, whole]
    have less := Nat.mod_le r (2 ^ more)
    exact ⟨f.exists_units_eq_mul_pow (by omega) shift, f.exists_units_eq_mul_pow (by omega) shift⟩

end BinaryFormat

namespace Binary32

variable {x y : Binary32} {p q : ℚ}

theorem signed_units_lt_iff (s t : Bool) (a b : Nat) :
    signed s (single.units a) < signed t (single.units b) ↔ signed s a < signed t b := by
  have order {m n : Nat} : single.units m < single.units n ↔ m < n :=
    single.units_strictMono.lt_iff_lt
  have positive (n : Nat) : 0 < single.units n ↔ 0 < n := BinaryFormat.units_pos_iff
  have first := positive a
  have second := positive b
  cases s <;> cases t <;> simp only [signed_false, signed_true]
  · exact_mod_cast order
  · omega
  · omega
  · rw [neg_lt_neg_iff, neg_lt_neg_iff]
    exact_mod_cast order

theorem lt_iff (hx : x.value? = some p) (hy : y.value? = some q) : x < y ↔ p < q := by
  obtain ⟨s, a, rfl, rfl⟩ := eq_finite_of_value? hx
  obtain ⟨t, b, rfl, rfl⟩ := eq_finite_of_value? hy
  rw [div_lt_div_iff_of_pos_right one_pos, Int.cast_lt, signed_units_lt_iff]
  exact decide_eq_true_iff

theorem value?_max (hx : x.value? = some p) (hy : y.value? = some q) :
    (x.max y).value? = some (Max.max p q) := by
  have number : x.isNaN = false := by
    cases x <;> first | rfl | cases hx
  rw [Binary32.max, number, if_neg Bool.false_ne_true]
  by_cases less : x < y
  · rw [if_pos less, hy, max_eq_right ((lt_iff hx hy).mp less).le]
  · rw [if_neg less, hx, max_eq_left (not_lt.mp ((lt_iff hx hy).not.mp less))]

theorem eq_zeroOf_of_value? (value : x.value? = some 0) : ∃ negative, x = zeroOf negative := by
  obtain ⟨s, code, rfl, zero⟩ := eq_finite_of_value? value
  refine ⟨s, congrArg (finite s) (Fin.ext ?_)⟩
  have units : signed s (single.units code) = 0 := by
    rw [eq_comm, div_eq_zero_iff, or_iff_left one_pos.ne'] at zero
    exact_mod_cast zero
  have none : ¬0 < single.units code := by
    cases s
    · rw [signed_false] at units
      omega
    · rw [signed_true] at units
      omega
  rw [BinaryFormat.units_pos_iff] at none
  exact Nat.eq_zero_of_not_pos none

theorem floorNat_eq (value : x.value? = some q) (limit : Nat) :
    x.floorNat limit = min ⌊q⌋₊ limit := by
  obtain ⟨s, c, rfl, rfl⟩ := eq_finite_of_value? value
  cases s with
  | false =>
    have below : ⌊(signed false (single.units c) / one : ℚ)⌋₊ = single.units c / one := by
      rw [signed_false, Int.cast_natCast, Nat.floor_div_eq_div]
    rw [below]
    rfl
  | true =>
    have negative : (signed true (single.units c) / one : ℚ) ≤ 0 := by
      apply div_nonpos_of_nonpos_of_nonneg _ one_pos.le
      simp
    rw [Nat.floor_of_nonpos negative, Nat.zero_min]
    rfl

theorem representable_units_div {code : Nat} (finite : code < single.infinityCode) :
    Representable (single.units code / one) :=
  ⟨.finite false ⟨code, finite⟩, by rw [value?, signed_false, Int.cast_natCast]⟩

/-- The whole number below a number that some value stands for and what is left above it are such
numbers themselves. -/
theorem Representable.floor (h : Representable q) :
    Representable ⌊q⌋₊ ∧ Representable (q - ⌊q⌋₊) := by
  rcases le_total q 0 with negative | nonneg
  · rw [Nat.floor_of_nonpos negative, Nat.cast_zero, sub_zero]
    exact ⟨representable_zero, h⟩
  obtain ⟨code, finite, units⟩ := h.units nonneg
  obtain rfl : q = single.units code / one := (eq_div_iff one_pos.ne').mpr units
  have power : one = 2 ^ single.unitBits := rfl
  obtain ⟨⟨rest, left⟩, whole, below⟩ := single.exists_units_mod code single.unitBits
  rw [← power] at left below
  have small {other : Nat} (less : single.units other ≤ single.units code) :
      other < single.infinityCode := by
    rw [single.units_strictMono.le_iff_le] at less
    exact less.trans_lt finite
  have above := Nat.div_add_mod' (single.units code) one
  have floor : (⌊(single.units code / one : ℚ)⌋₊ : ℚ) = single.units whole / one := by
    rw [Nat.floor_div_eq_div, below, Nat.cast_mul, mul_div_cancel_right₀ _ one_pos.ne']
  have fraction : (single.units code / one : ℚ) - single.units whole / one =
      single.units rest / one := by
    rw [← sub_div, left, below, sub_eq_iff_eq_add'.mpr]
    exact_mod_cast above.symm
  rw [floor, fraction]
  exact ⟨representable_units_div (small (by omega)), representable_units_div (small (by omega))⟩

theorem representable_natCast {n : Nat} (small : n ≤ 2 ^ 24) : Representable n := by
  obtain ⟨code, units⟩ := single.exists_units_eq_mul_pow (r := n) small single.unitBits
  have power : one = 2 ^ single.unitBits := rfl
  rw [← power] at units
  have finite : code < single.infinityCode := by
    rw [← single.units_strictMono.lt_iff_lt, units, units_infinityCode]
    exact Nat.mul_lt_mul_of_pos_right (by omega) (Nat.two_pow_pos _)
  have exact := representable_units_div finite
  rwa [units, Nat.cast_mul, mul_div_cancel_right₀ _ one_pos.ne'] at exact

theorem value?_ofNat {n : Nat} (h : Representable n) : (ofNat n).value? = some (n : ℚ) :=
  (rounds_ofNat n).exact h

@[simp] theorem value?_zero : (0 : Binary32).value? = some 0 :=
  (value?_ofNat (representable_natCast (Nat.zero_le _))).trans (by rw [Nat.cast_zero])

@[simp] theorem value?_one : (1 : Binary32).value? = some 1 :=
  (value?_ofNat (representable_natCast (Nat.one_le_two_pow))).trans (by rw [Nat.cast_one])

theorem value?_sub_zero (value : x.value? = some q) : (x - 0).value? = some q :=
  (rounds_sub value value?_zero).exact_of_eq (sub_zero q) ⟨x, value⟩

theorem value?_ofNat_floor (value : x.value? = some q) :
    (ofNat ⌊q⌋₊).value? = some (⌊q⌋₊ : ℚ) := value?_ofNat (Representable.floor ⟨x, value⟩).1

theorem value?_sub_ofNat_floor (value : x.value? = some q) :
    (x - ofNat ⌊q⌋₊).value? = some (q - ⌊q⌋₊) :=
  (rounds_sub value (value?_ofNat_floor value)).exact (Representable.floor ⟨x, value⟩).2

end Binary32

end SpectrumViewer
