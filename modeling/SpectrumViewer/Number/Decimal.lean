import SpectrumViewer.Number.Binary32

set_option autoImplicit false

/-!
Decimal numerals: a sign, digits with at most one point among or before or behind them, and an
optional power of ten. `parse?` accepts exactly these, in ASCII; the value of a numeral is kept
exactly and rounded once by `toBinary32`.
-/

namespace SpectrumViewer

/-- The number `significand * 10 ^ exponent` with a sign. -/
structure Decimal where
  negative : Bool
  significand : Nat
  exponent : Int
  deriving DecidableEq, Repr

namespace Decimal

/-- The number written by ASCII digits. -/
def digitsValue (cs : List Char) : Nat := cs.foldl (fun n c => 10 * n + (c.toNat - '0'.toNat)) 0

/-- An optional sign in front; true for a minus. -/
def splitSign : List Char → Bool × List Char
  | '+' :: cs => (false, cs)
  | '-' :: cs => (true, cs)
  | cs => (false, cs)

/-- The digits behind a point, if there is one. -/
def splitFraction : List Char → List Char × List Char
  | '.' :: cs => (cs.takeWhile Char.isDigit, cs.dropWhile Char.isDigit)
  | cs => ([], cs)

/-- The power of ten that ends a numeral: nothing, or `e` or `E` with an optional sign and at
least one digit. -/
def parseScale? : List Char → Option Int
  | [] => some 0
  | c :: cs =>
    let (negative, digits) := splitSign cs
    if (c = 'e' ∨ c = 'E') ∧ digits ≠ [] ∧ digits.all Char.isDigit then
      some (Binary32.signed negative (digitsValue digits))
    else none

def parse? (cs : List Char) : Option Decimal :=
  let (negative, cs) := splitSign cs
  let whole := cs.takeWhile Char.isDigit
  let (fraction, cs) := splitFraction (cs.dropWhile Char.isDigit)
  if whole ++ fraction = [] then none
  else (parseScale? cs).map fun scale =>
    ⟨negative, digitsValue (whole ++ fraction), scale - fraction.length⟩

/-- Every finite magnitude of the formats used here lies between `10 ^ (-bound)` and
`10 ^ bound`, half of the smallest one included. -/
def bound : Nat := 400

/-- The code of the nearest magnitude of a format. Numerals far outside its range are decided
without computing their power of ten. -/
def code (f : BinaryFormat) (d : Decimal) : Nat :=
  let n := d.significand
  if n = 0 then 0
  else if bound < d.exponent then f.infinityCode
  else if d.exponent < -bound ∧ d.exponent + (Nat.toDigits 10 n).length < -bound then 0
  else match d.exponent with
    | .ofNat e => f.nearest (n * Nat.pow 10 e * Nat.pow 2 f.unitBits) 1
    | .negSucc e => f.nearest (n * Nat.pow 2 f.unitBits) (Nat.pow 10 (e + 1))

def toBinary32 (d : Decimal) : Binary32 := .ofCode d.negative (d.code .single)

/-- Through the 64-bit format: rounded to it first, and from there to single precision. Nothing
when the first step overflows. -/
def toBinary32Twice? (d : Decimal) : Option Binary32 :=
  let c := d.code .double
  if c < BinaryFormat.double.infinityCode then
    let excess := BinaryFormat.double.unitBits - BinaryFormat.single.unitBits
    some (.rounded d.negative (BinaryFormat.double.units c) (Nat.pow 2 excess))
  else none

end Decimal

end SpectrumViewer
