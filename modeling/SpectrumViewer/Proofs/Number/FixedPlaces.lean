import SpectrumViewer.Number.FixedPlaces
import SpectrumViewer.Proofs.Number.Numeral
import SpectrumViewer.Proofs.Number.Value

set_option autoImplicit false

/-!
Values written with a fixed number of decimal places and read back. The value read is the nearest
to the number written, which may be another than the one that was written, but it is written with
the same digits again (`exists_restores`).
-/

namespace SpectrumViewer

open BinaryFormat (single)

namespace Decimal

theorem nearest_zero (den : Nat) (positive : 0 < den) : single.nearest 0 den = 0 := by
  have none : (0 / den).log2 - single.fractionBits = 0 := by simp
  rw [BinaryFormat.nearest, none, roundHalfEven_zero _ (Nat.mul_pos positive Nat.one_pos)]
  rfl

theorem toBinary32_places {places : Nat} (fractional : places ≠ 0) (small : places ≤ bound)
    (n : Nat) :
    toBinary32 ⟨false, n, -(places : Int)⟩ = Binary32.ofRatio n (10 ^ places) := by
  show Binary32.ofCode false _ = Binary32.ofCode false _
  congr 1
  rw [code]
  dsimp only
  by_cases zero : n = 0
  · rw [if_pos zero, zero, Nat.zero_mul, nearest_zero _ (Nat.pow_pos (by decide))]
  rw [if_neg zero, if_neg (by omega), if_neg (by omega)]
  cases places with
  | zero => exact absurd rfl fractional
  | succ places => rfl

end Decimal

namespace FixedPlaces

/-- The text has the given number of decimal places and stands for the number. -/
def Denotes (places : Nat) (text : List Char) (q : ℚ) : Prop :=
  ∃ whole fraction, text = whole ++ '.' :: fraction ∧
    (∀ c ∈ whole ++ fraction, c.isDigit = true) ∧ fraction.length = places ∧
    q = Nat.ofDigitChars 10 (whole ++ fraction) 0 / 10 ^ places

/-- What comes of a value that is written with decimal places and read again: the value nearest to
the number written, and it is written in the same way. -/
def Restores (places : Nat) (written read : Binary32) : Prop :=
  (∃ q, Denotes places (written.fixed places).toList q ∧ read.IsNearest q) ∧
    read.fixed places = written.fixed places

theorem exists_placed {places : Nat} (fractional : places ≠ 0) (n : Nat) :
    ∃ whole fraction, placed places n = whole ++ '.' :: fraction ∧ whole ≠ [] ∧
      fraction.length = places ∧ (∀ c ∈ whole ++ fraction, c.isDigit = true) ∧
      Nat.ofDigitChars 10 (whole ++ fraction) 0 = n := by
  set ds := Nat.toDigits 10 n with ds_eq
  set padded := List.replicate (places + 1 - ds.length) '0' ++ ds with padded_eq
  have length : places + 1 ≤ padded.length := by
    rw [padded_eq, List.length_append, List.length_replicate]
    omega
  refine ⟨padded.take (padded.length - places), padded.drop (padded.length - places), ?_, ?_, ?_,
    ?_, ?_⟩
  · rw [placed]
    exact if_neg fractional
  · intro empty
    have := congrArg List.length empty
    rw [List.length_take, List.length_nil] at this
    omega
  · rw [List.length_drop]
    omega
  · rw [List.take_append_drop, padded_eq, List.forall_mem_append]
    constructor
    · intro c zero
      rw [List.eq_of_mem_replicate zero]
      rfl
    · intro c digit
      exact Nat.isDigit_of_mem_toDigits (by decide) (by decide) digit
  · rw [List.take_append_drop, padded_eq, Nat.ofDigitChars_append, Nat.ofDigitChars_replicate_zero,
      Nat.mul_zero]
    exact Nat.ofDigitChars_ten_toDigits

variable {places : Nat}

/-- What a magnitude is written as, in units of the last place. -/
def writtenUnits (places : Nat) (code : Fin single.infinityCode) : Nat :=
  roundHalfEven (single.units code * 10 ^ places) Binary32.one

theorem toList_fixed_finite (code : Fin single.infinityCode) :
    ((Binary32.finite false code).fixed places).toList =
      placed places (writtenUnits places code) := by
  rw [Binary32.fixed, String.toList_ofList]
  rfl

theorem fixed_ends (fractional : places ≠ 0) (code : Fin single.infinityCode) :
    (∃ c ∈ ((Binary32.finite false code).fixed places).toList.head?, c.isDigit = true) ∧
      ∃ c ∈ ((Binary32.finite false code).fixed places).toList.getLast?, c.isDigit = true := by
  obtain ⟨whole, fraction, text, nonempty, length, digits, -⟩ := exists_placed fractional
    (writtenUnits places code)
  rw [toList_fixed_finite, text]
  constructor
  · obtain ⟨c, rest, rfl⟩ := List.exists_cons_of_ne_nil nonempty
    exact ⟨c, rfl, digits c (List.mem_append_left _ List.mem_cons_self)⟩
  · have behind : fraction ≠ [] := by
      rintro rfl
      exact fractional length.symm
    refine ⟨fraction.getLast behind, ?_, digits _ ?_⟩
    · rw [← List.singleton_append, ← List.append_assoc, List.getLast?_append_of_ne_nil _ behind]
      exact List.getLast?_eq_some_getLast behind
    · exact List.mem_append_right _ (List.getLast_mem behind)

/-- A value at least as near to what was written is written in the same way. -/
theorem fixed_eq_of_closer {code code' : Fin single.infinityCode}
    (closer : |(single.units code' / Binary32.one : ℚ) - writtenUnits places code / 10 ^ places| ≤
      |(single.units code / Binary32.one : ℚ) - writtenUnits places code / 10 ^ places|) :
    (Binary32.finite false code').fixed places = (Binary32.finite false code).fixed places := by
  have scale : (0 : ℚ) < 10 ^ places := by positivity
  have distance (units n : Nat) : |(n : ℚ) - (units * 10 ^ places : Nat) / Binary32.one| =
      |(units / Binary32.one : ℚ) - n / 10 ^ places| * 10 ^ places := by
    rw [abs_sub_comm, ← abs_of_pos scale, ← abs_mul, abs_of_pos scale, sub_mul,
      div_mul_cancel₀ _ scale.ne', div_mul_eq_mul_div]
    push_cast
    rfl
  have same : writtenUnits places code' = writtenUnits places code := by
    apply roundHalfEven_eq_of_closer (mod_cast Binary32.one_pos)
    rw [distance, distance]
    exact mul_le_mul_of_nonneg_right closer scale.le
  rw [← String.toList_inj, toList_fixed_finite, toList_fixed_finite, same]

theorem denotes_fixed (fractional : places ≠ 0) (code : Fin single.infinityCode) :
    Denotes places ((Binary32.finite false code).fixed places).toList
      (writtenUnits places code / 10 ^ places) := by
  obtain ⟨whole, fraction, text, -, length, digits, number⟩ :=
    exists_placed fractional (writtenUnits places code)
  refine ⟨whole, fraction, ?_, digits, length, by rw [number]⟩
  rw [toList_fixed_finite, text]

theorem parse?_fixed (fractional : places ≠ 0) (code : Fin single.infinityCode) :
    Decimal.parse? ((Binary32.finite false code).fixed places).toList =
      some ⟨false, writtenUnits places code, -(places : Int)⟩ := by
  obtain ⟨whole, fraction, text, nonempty, length, digits, number⟩ :=
    exists_placed fractional (writtenUnits places code)
  rw [toList_fixed_finite, text, Decimal.parse?_point digits (by simp [nonempty]),
    length]
  exact congrArg _ (congrArg (Decimal.mk false · _) number)

theorem writtenUnits_le (places : Nat) (code : Fin single.infinityCode) :
    (writtenUnits places code : ℚ) / (10 ^ places : Nat) ≤ Binary32.largest := by
  have positive : 0 < 10 ^ places := Nat.pow_pos (by decide)
  rw [div_le_iff₀ (mod_cast positive)]
  have bounded : writtenUnits places code ≤ Binary32.largest * 10 ^ places := by
    apply roundHalfEven_le (mod_cast Binary32.one_pos)
    rw [Nat.mul_right_comm]
    exact Nat.mul_le_mul_right _ (Binary32.units_le_largest code)
  exact_mod_cast bounded

/-- A finite value without a minus, written with decimal places, is read as a value that is written
in the same way again. -/
theorem exists_restores (fractional : places ≠ 0) (small : places ≤ Decimal.bound)
    (code : Fin single.infinityCode) :
    ∃ d code', Decimal.parse? ((Binary32.finite false code).fixed places).toList = some d ∧
      d.toBinary32 = .finite false code' ∧
      Restores places (.finite false code) (.finite false code') := by
  obtain ⟨code', same, nearest⟩ := Binary32.isNearest_ofRatio (Nat.pow_pos (by decide))
    Binary32.representable_largest (writtenUnits_le places code)
  have read := Decimal.toBinary32_places fractional small (writtenUnits places code)
  rw [same] at nearest read
  refine ⟨_, code', parse?_fixed fractional code, read, ⟨_, denotes_fixed fractional code, ?_⟩, ?_⟩
  · exact_mod_cast nearest
  · obtain ⟨_, _, v, -, value, closest⟩ := nearest
    obtain rfl := Option.some.inj value
    have closer := (closest (.finite false code) _ rfl).1
    exact fixed_eq_of_closer (by simpa using closer)

end FixedPlaces

end SpectrumViewer
