import SpectrumViewer.Number.Rounding

set_option autoImplicit false

/-!
Binary floating-point formats in exact integer arithmetic. Every finite magnitude of a format is
a whole number of its smallest unit, `2 ^ (-unitBits)`. Magnitudes are numbered from zero upwards
in order of size; the number of a magnitude, its code, is also its bit pattern without the sign,
and the code after the largest finite one stands for infinity.

`nearest` is the only place where anything is rounded.
-/

namespace SpectrumViewer

/-- A format: stored fraction bits, the exponent of its unit, and the code of infinity. -/
structure BinaryFormat where
  fractionBits : Nat
  unitBits : Nat
  infinityCode : Nat

namespace BinaryFormat

/-- The 32-bit interchange format. -/
@[reducible] def single : BinaryFormat := ⟨23, 149, 0x7F800000⟩

/-- The 64-bit interchange format. -/
@[reducible] def double : BinaryFormat := ⟨52, 1074, 0x7FF0000000000000⟩

variable (f : BinaryFormat)

/-- The smallest magnitude without leading zeros in its fraction, in units. -/
def hidden : Nat := Nat.pow 2 f.fractionBits

/-- The magnitude with a given code, in units. Infinity's code gives the power of two that
follows the largest finite magnitude. -/
def units (code : Nat) : Nat :=
  if code < f.hidden then code
  else (f.hidden + code % f.hidden) * Nat.pow 2 (code / f.hidden - 1)

/-- The code of the magnitude nearest to `num / den` units, ties to the even code, and infinity's
code from half a step above the largest finite magnitude on. -/
def nearest (num den : Nat) : Nat :=
  let shift := (num / den).log2 - f.fractionBits
  min (shift * f.hidden + roundHalfEven num (den * Nat.pow 2 shift)) f.infinityCode

theorem units_of_lt {code : Nat} (h : code < f.hidden) : f.units code = code := by
  simp [units, h]

end BinaryFormat

end SpectrumViewer
