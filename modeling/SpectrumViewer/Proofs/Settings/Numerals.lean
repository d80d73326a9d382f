import SpectrumViewer.Proofs.Number.Grammar
import SpectrumViewer.Proofs.Number.Value
import SpectrumViewer.Proofs.Number.Whole
import SpectrumViewer.Proofs.Yaml.Scalar.Plain
import SpectrumViewer.Settings.Printer

set_option autoImplicit false

/-!
Numbers in documents. Whole numbers come back from their digits (`unsigned?_toDigits`), and so do
single-precision numbers that are whole and not too large (`number?_text`).
-/

namespace SpectrumViewer

open BinaryFormat (single double)
open Decimal (AllDigits number)

namespace Decimal

theorem allDigits_toDigits (n : Nat) : AllDigits (Nat.toDigits 10 n) := fun _ among =>
  Nat.isDigit_of_mem_toDigits (by decide) (by decide) among

theorem allDigits_zeros (zeros : Nat) : AllDigits (List.replicate zeros '0') := by
  intro c among
  rw [List.eq_of_mem_replicate among]
  rfl

theorem number_toDigits (n : Nat) : number (Nat.toDigits 10 n) = n := Nat.ofDigitChars_ten_toDigits

theorem number_append_zeros (digits : List Char) (zeros : Nat) :
    number (digits ++ List.replicate zeros '0') = number digits * 10 ^ zeros := by
  rw [number, Nat.ofDigitChars_append, Nat.ofDigitChars_replicate_zero, Nat.mul_comm]
  rfl

end Decimal

namespace NumeralStyle

theorem positionalText_whole (style : NumeralStyle) {ds : List Char} (nonempty : ds ≠ [])
    (zeros : Nat) :
    style.positionalText ds ((zeros : Int) + ds.length) =
      ds ++ List.replicate zeros '0' ++ style.wholeEnding := by
  have length := List.length_pos_of_ne_nil nonempty
  have position : ((zeros : Int) + ds.length).toNat = zeros + ds.length := by omega
  rw [positionalText, if_neg (by omega), position]
  dsimp only
  rw [if_pos (Nat.le_add_left _ _), Nat.add_sub_cancel]

theorem position_le {k grid : Nat} (positive : 0 < k) (small : k * 10 ^ grid ≤ 2 ^ 24) :
    grid + (Nat.toDigits 10 k).length ≤ 8 := by
  have below : k * 10 ^ grid < 10 ^ 8 := Nat.lt_of_le_of_lt small (by decide)
  have few : grid < 8 := by
    refine (Nat.pow_lt_pow_iff_right (by decide : 1 < 10)).mp (Nat.lt_of_le_of_lt ?_ below)
    exact Nat.le_mul_of_pos_left _ positive
  have digits : k < 10 ^ (8 - grid) := by
    refine Nat.lt_of_mul_lt_mul_right (a := 10 ^ grid) ?_
    rwa [← Nat.pow_add, Nat.sub_add_cancel few.le]
  have length := (Nat.length_toDigits_le_iff (by decide) (by omega)).mpr digits
  omega

theorem magnitudeText_whole {code n : Nat} (whole : single.units code = n * Binary32.one)
    (small : n ≤ 2 ^ 24) :
    ∃ front, document.magnitudeText code = front ++ ['.', '0'] ∧ AllDigits front ∧ front ≠ [] ∧
      number front = n := by
  rcases Nat.eq_zero_or_pos n with rfl | positive
  · have zero : code = 0 := single.units_strictMono.injective (by rw [whole, Nat.zero_mul]; rfl)
    subst zero
    exact ⟨['0'], rfl, Decimal.allDigits_zeros 1, by decide, rfl⟩
  · obtain ⟨k, grid, digits, same⟩ := Shortest.digits_whole document.tie positive whole small
    have nonzero : code ≠ 0 := by
      rintro rfl
      have unit : 0 < n * Binary32.one := Nat.mul_pos positive (Nat.two_pow_pos _)
      rw [← whole] at unit
      exact absurd unit (by decide)
    have nonempty : Nat.toDigits 10 k ≠ [] := Nat.toDigits_ne_nil
    have length := List.length_pos_of_ne_nil nonempty
    have positional : document.positional ((grid : Int) + (Nat.toDigits 10 k).length) = true := by
      have position := position_le (Nat.pos_of_mul_pos_right (same ▸ positive)) (same ▸ small)
      exact decide_eq_true (by omega)
    refine ⟨Nat.toDigits 10 k ++ List.replicate grid '0', ?_, ?_, by simp [nonempty], ?_⟩
    · rw [magnitudeText, if_neg nonzero, digits]
      dsimp only
      rw [if_pos positional, positionalText_whole document nonempty]
      rfl
    · exact List.forall_mem_append.mpr
        ⟨Decimal.allDigits_toDigits k, Decimal.allDigits_zeros grid⟩
    · rw [Decimal.number_append_zeros, Decimal.number_toDigits, same]

end NumeralStyle

namespace Yaml

namespace Literal

theorem digits?_allDigits {cs : List Char} (digits : AllDigits cs) (nonempty : cs ≠ []) :
    digits? 10 cs = some (number cs) := by
  have value (c : Char) (digit : c.isDigit = true) : Text.hexValue c = c.toNat - '0'.toNat := by
    rw [Text.hexValue, if_pos digit]
  have small (c : Char) (digit : c.isDigit = true) :
      (Text.isHex c && decide (Text.hexValue c < 10)) = true := by
    have below : c.toNat ≤ 57 := (Char.isDigit_iff_toNat.mp digit).2
    rw [Text.isHex, digit, value c digit, Bool.true_or, Bool.true_or, Bool.true_and,
      decide_eq_true_iff]
    exact Nat.sub_lt_left_of_lt_add (Char.isDigit_iff_toNat.mp digit).1 (Nat.lt_succ_of_le below)
  rw [digits?, if_pos ⟨nonempty, List.all_eq_true.mpr fun c among => small c (digits c among)⟩]
  congr 1
  exact List.foldl_ext _ _ _ fun n c among => by rw [value c (digits c among)]

theorem head?_toDigits {n : Nat} (positive : 0 < n) : (Nat.toDigits 10 n).head? ≠ some '0' := by
  induction n using Nat.strongRecOn with
  | ind n ih =>
    rcases Nat.lt_or_ge n 10 with small | large
    · rw [Nat.toDigits_of_lt_base small]
      clear ih
      revert positive
      revert n
      decide
    · rw [Nat.toDigits_of_base_le (by decide) large,
        List.head?_append_of_ne_nil _ Nat.toDigits_ne_nil]
      exact ih (n / 10) (by omega) (by omega)

theorem isZeroPadded_eq_false {c : Char} {cs : List Char} (digits : AllDigits (c :: cs))
    (unpadded : c = '0' → cs = []) : isZeroPadded (c :: cs) = false := by
  obtain ⟨plus, minus⟩ := digits.unsigned c rfl
  rw [isZeroPadded, Decimal.splitSign_of_ne cs plus minus]
  dsimp only
  split
  · next same =>
    cases same
    cases unpadded rfl
  · rfl

theorem unsigned?_allDigits {c : Char} {cs : List Char} (digits : AllDigits (c :: cs))
    (unpadded : c = '0' → cs = []) : unsigned? (c :: cs) = some (number (c :: cs)) := by
  have decimal : natural? (c :: cs) = some (number (c :: cs)) := by
    have noBase (letter : Char) (rest : List Char) (none : letter.isDigit = false) :
        cs ≠ letter :: rest := by
      rintro rfl
      have digit := digits letter (by simp)
      rw [none] at digit
      cases digit
    unfold natural?
    split
    · next same => cases same; exact absurd rfl (noBase 'x' _ rfl)
    · next same => cases same; exact absurd rfl (noBase 'o' _ rfl)
    · next same => cases same; exact absurd rfl (noBase 'b' _ rfl)
    · rw [isZeroPadded_eq_false digits unpadded, if_neg (by decide)]
      exact digits?_allDigits digits (List.cons_ne_nil c cs)
  unfold unsigned?
  split
  · next same =>
    cases same
    exact absurd rfl (digits.unsigned '+' rfl).1
  · exact decimal

theorem unsigned?_toDigits (n : Nat) : unsigned? (Nat.toDigits 10 n) = some n := by
  obtain ⟨c, cs, same⟩ := List.exists_cons_of_ne_nil (@Nat.toDigits_ne_nil n 10)
  have digits := Decimal.allDigits_toDigits n
  have number := Decimal.number_toDigits n
  rw [same] at digits number ⊢
  rw [unsigned?_allDigits digits, number]
  rintro rfl
  rcases Nat.eq_zero_or_pos n with rfl | positive
  · cases same
    rfl
  · exact absurd (congrArg List.head? same) (head?_toDigits positive)

theorem exists_units_of_whole {x : Binary32} {k : Int} (whole : x.value? = some (k : ℚ)) :
    ∃ negative code, x = .finite negative code ∧ single.units code = k.natAbs * Binary32.one := by
  obtain ⟨negative, code, rfl, value⟩ := Binary32.eq_finite_of_value? whole
  refine ⟨negative, code, rfl, ?_⟩
  rw [eq_div_iff Binary32.one_pos.ne'] at value
  have units : k * (Binary32.one : Int) = Binary32.signed negative (single.units code) := by
    exact_mod_cast value
  have size := congrArg Int.natAbs units
  have magnitude : (Binary32.signed negative (single.units code)).natAbs = single.units code := by
    cases negative <;> simp
  rw [Int.natAbs_mul, Int.natAbs_natCast, magnitude] at size
  exact size.symm

theorem code_tenth (f : BinaryFormat) (negative : Bool) {n : Nat} (positive : 0 < n) :
    Decimal.code f ⟨negative, n * 10, -1⟩ = f.nearest (n * 10 * Nat.pow 2 f.unitBits) 10 := by
  have inRange : ¬((Decimal.bound : Int) < -1) := by decide
  have notTiny : ¬((-1 : Int) < -Decimal.bound) := by decide
  unfold Decimal.code
  dsimp only
  rw [if_neg (by omega), if_neg inRange, if_neg fun tiny => notTiny tiny.1]
  rfl

theorem code_double_whole (negative : Bool) {n : Nat} (small : n ≤ 2 ^ 24) :
    ∃ code, code < double.infinityCode ∧ double.units code = n * 2 ^ double.unitBits ∧
      Decimal.code double ⟨negative, n * 10, -1⟩ = code := by
  obtain ⟨code, units⟩ := double.exists_units_eq_mul_pow
    (Nat.le_trans small (by decide : 2 ^ 24 ≤ 2 * double.hidden)) double.unitBits
  have finite : code < double.infinityCode := by
    refine double.units_strictMono.lt_iff_lt.mp ?_
    rw [units]
    calc n * 2 ^ double.unitBits ≤ 2 ^ 24 * 2 ^ double.unitBits := Nat.mul_le_mul_right _ small
      _ < double.units double.infinityCode := by decide +kernel
  refine ⟨code, finite, units, ?_⟩
  rcases Nat.eq_zero_or_pos n with rfl | positive
  · rw [Nat.zero_mul] at units
    exact (double.units_strictMono.injective units).symm
  · have same : n * 10 * Nat.pow 2 double.unitBits = double.units code * 10 := by
      rw [units, Nat.pow_eq, Nat.mul_right_comm]
    rw [code_tenth double negative positive, same]
    exact BinaryFormat.nearest_units (by decide) (by decide) finite.le

theorem rounded_units (negative : Bool) (code : Fin single.infinityCode) (excess : Nat) :
    Binary32.rounded negative (single.units code * 2 ^ excess) (Nat.pow 2 excess) =
      .finite negative code := by
  rw [Binary32.rounded, Nat.pow_eq,
    BinaryFormat.nearest_units (by decide) (Nat.two_pow_pos excess) code.isLt.le, Binary32.ofCode,
    dif_pos code.isLt]

theorem toBinary32Twice?_of_lt {d : Decimal} (finite : d.code double < double.infinityCode) :
    d.toBinary32Twice? = some (.rounded d.negative (double.units (d.code double))
      (Nat.pow 2 (double.unitBits - single.unitBits))) :=
  if_pos finite

/-- Ten times a whole number is read through the wider format without rounding. -/
theorem toBinary32Twice?_whole (negative : Bool) {code : Fin single.infinityCode} {n : Nat}
    (whole : single.units code = n * Binary32.one) (small : n ≤ 2 ^ 24) :
    Decimal.toBinary32Twice? ⟨negative, n * 10, -1⟩ = some (.finite negative code) := by
  obtain ⟨wide, finite, units, same⟩ := code_double_whole negative small
  have excess : n * 2 ^ double.unitBits =
      single.units code * 2 ^ (double.unitBits - single.unitBits) := by
    rw [whole, Binary32.one, Nat.pow_eq, Nat.mul_assoc, ← Nat.pow_add,
      Nat.add_sub_of_le (by decide : single.unitBits ≤ double.unitBits)]
  rw [toBinary32Twice?_of_lt (same.symm ▸ finite), same, units, excess, rounded_units]

theorem exists_text_eq {x : Binary32} {k : Int} (whole : x.value? = some (k : ℚ))
    (small : k.natAbs ≤ 2 ^ 24) :
    ∃ negative code front, x = .finite negative code ∧
      single.units code = k.natAbs * Binary32.one ∧
      NumeralStyle.document.text x =
        (if negative then ['-'] else []) ++ (front ++ '.' :: ['0']) ∧
      AllDigits front ∧ front ≠ [] ∧ number front = k.natAbs := by
  obtain ⟨negative, code, rfl, units⟩ := exists_units_of_whole whole
  obtain ⟨front, text, digits, nonempty, value⟩ := NumeralStyle.magnitudeText_whole units small
  refine ⟨negative, code, front, rfl, units, ?_, digits, nonempty, value⟩
  rw [NumeralStyle.text, text]

theorem parse?_whole (negative : Bool) {front : List Char} (digits : AllDigits front) :
    Decimal.parse? ((if negative then ['-'] else []) ++ (front ++ '.' :: ['0'])) =
      some ⟨negative, number front * 10, -1⟩ := by
  have sign : Decimal.SignText (if negative then ['-'] else []) negative := by
    cases negative
    · exact .absent
    · exact .minus
  have all : AllDigits (front ++ ['0']) := List.forall_mem_append.mpr ⟨digits, by simp⟩
  have written := Decimal.Written.intro sign (.point all (by simp)) .absent
  have value : number (front ++ ['0']) = number front * 10 := Decimal.number_append_zeros front 1
  rw [List.append_nil, value] at written
  exact Decimal.parse?_of_written written

theorem isWordOf_eq_false (p : List Char → Bool) {words : List String} {cs : List Char}
    (holds : p cs = true) (none : ∀ word ∈ words, p word.toList = false) :
    isWordOf words cs = false := by
  refine List.any_eq_false.mpr fun word among same => ?_
  rw [decide_eq_true_eq] at same
  have fails := none word among
  rw [same, holds] at fails
  cases fails

theorem isNull_toDigits (n : Nat) : isNull (Nat.toDigits 10 n) = false := by
  obtain ⟨c, cs, same⟩ := List.exists_cons_of_ne_nil (@Nat.toDigits_ne_nil n 10)
  have digits := Decimal.allDigits_toDigits n
  rw [same] at digits ⊢
  have digit : ((c :: cs).head?.any Char.isDigit) = true := digits c List.mem_cons_self
  rw [isNull, isWordOf_eq_false (·.head?.any Char.isDigit) digit (by decide)]
  rfl

/-- A number that is whole and not too large comes back from its numeral. -/
theorem number?_text {x : Binary32} {k : Int} (whole : x.value? = some (k : ℚ))
    (small : k.natAbs ≤ 2 ^ 24) : number? (NumeralStyle.document.text x) = some x := by
  obtain ⟨negative, code, front, rfl, units, text, digits, nonempty, value⟩ :=
    exists_text_eq whole small
  have last : decide ((NumeralStyle.document.text (.finite negative code)).getLast? = some '0') =
      true := by
    rw [text]
    simp
  have noWord {words : List String} := @isWordOf_eq_false (·.getLast? = some '0') words _ last
  have noPlus : ¬(NumeralStyle.document.text (.finite negative code)).head? = some '+' := by
    obtain ⟨c, cs, rfl⟩ := List.exists_cons_of_ne_nil nonempty
    rw [text]
    cases negative
    · exact fun first => (digits.unsigned c rfl).1 (Option.some.inj first)
    · exact fun first => absurd (Option.some.inj first) (by decide)
  rw [number?, if_neg noPlus, noWord (by decide), noWord (by decide), noWord (by decide)]
  rw [text, parse?_whole negative digits, value]
  simpa using toBinary32Twice?_whole negative units small

end Literal

end Yaml

end SpectrumViewer
