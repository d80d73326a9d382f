import SpectrumViewer.Number.Binary32

set_option autoImplicit false

/-!
The fewest decimal digits that read back as a given magnitude. Every real number between the two
midpoints to its neighbours rounds to a magnitude, the midpoints themselves only if its code is
even. On each decimal grid, from the coarsest on, the two grid points around the magnitude are
tested; the first grid with a hit gives the digits, and of two hits the nearer one.
-/

namespace SpectrumViewer

open BinaryFormat (single)

/-- The choice between two grid points at the same distance. -/
inductive Tie where
  | toEven
  | upward
  deriving DecidableEq, Repr

namespace Shortest

/-- The position of the decimal point before the first digit of a positive magnitude: the
magnitude is below `10 ^ p` and not below `10 ^ (p - 1)`. -/
def pointPosition (units : Nat) : Int :=
  (Nat.toDigits 10 (units * Nat.pow 10 45 / Binary32.one)).length - 45

/-- The numerator's factor that turns units into multiples of `10 ^ grid`. -/
def gridFactor (grid : Int) : Nat := Nat.pow 10 (-grid).toNat

/-- The size of `10 ^ grid` in half units, after `gridFactor` was applied. -/
def gridStep (grid : Int) : Nat := Nat.pow 10 grid.toNat * (2 * Binary32.one)

/-- Whether `n * 10 ^ grid` rounds to the magnitude with this code. -/
def readsBack (code : Nat) (grid : Int) (n : Nat) : Bool :=
  let low := (single.units (code - 1) + single.units code) * gridFactor grid
  let high := (single.units code + single.units (code + 1)) * gridFactor grid
  let point := n * gridStep grid
  if code % 2 = 0 then decide (low ≤ point ∧ point ≤ high)
  else decide (low < point ∧ point < high)

/-- The hit on one grid. -/
def onGrid? (tie : Tie) (code : Nat) (grid : Int) : Option Nat :=
  let value := 2 * single.units code * gridFactor grid
  let step := gridStep grid
  let below := value / step
  let above := below + 1
  match readsBack code grid below, readsBack code grid above with
  | true, false => some below
  | false, true => some above
  | false, false => none
  | true, true =>
    let left := value - below * step
    let right := above * step - value
    if left < right then some below
    else if right < left then some above
    else match tie with
      | .upward => some above
      | .toEven => some (if below % 2 = 0 then below else above)

/-- Significand and power of ten with the fewest digits, for a positive finite magnitude. Nine
digits always suffice. A hit of ten on the coarsest grid is a one on the next. -/
def digits (tie : Tie) (code : Nat) : Nat × Int :=
  let top := pointPosition (single.units code)
  let hit := (List.range 9).findSome? fun (more : Nat) =>
    let grid : Int := top - 1 - more
    (onGrid? tie code grid).map (·, grid)
  match hit with
  | some (n, grid) => if n % 10 = 0 then (n / 10, grid + 1) else (n, grid)
  | none => (0, 0)

end Shortest

/-- How a format writes a single-precision number with the fewest digits: which of two equally
near numerals it takes, for which positions of the point it needs no power of ten, what stands
behind a whole number, and its words for the values without digits. -/
structure NumeralStyle where
  tie : Tie
  positional : Int → Bool
  wholeEnding : List Char
  nan : List Char
  infinity : List Char

namespace NumeralStyle

/-- Digits with the point after `position` of them, zeros filled in on either side. -/
def positionalText (style : NumeralStyle) (ds : List Char) (position : Int) : List Char :=
  if position ≤ 0 then '0' :: '.' :: (List.replicate (-position).toNat '0' ++ ds)
  else
    let n := position.toNat
    if ds.length ≤ n then ds ++ List.replicate (n - ds.length) '0' ++ style.wholeEnding
    else ds.take n ++ '.' :: ds.drop n

/-- One digit before the point and a power of ten. -/
def scientificText (ds : List Char) (position : Int) : List Char :=
  let mantissa := match ds with
    | [d] => [d]
    | d :: rest => d :: '.' :: rest
    | [] => []
  mantissa ++ 'e' :: (toString (position - 1)).toList

def magnitudeText (style : NumeralStyle) (code : Nat) : List Char :=
  if code = 0 then '0' :: style.wholeEnding
  else
    let (n, grid) := Shortest.digits style.tie code
    let ds := Nat.toDigits 10 n
    let position := grid + ds.length
    if style.positional position then style.positionalText ds position
    else scientificText ds position

def text (style : NumeralStyle) : Binary32 → List Char
  | .nan => style.nan
  | .infinite negative => (if negative then ['-'] else []) ++ style.infinity
  | .finite negative code =>
    (if negative then ['-'] else []) ++ style.magnitudeText code.val

end NumeralStyle

/-- The style of messages: positional always, whole numbers without a point, and the larger of
two equally near numerals. -/
def NumeralStyle.message : NumeralStyle where
  tie := .upward
  positional _ := true
  wholeEnding := []
  nan := "NaN".toList
  infinity := "inf".toList

def Binary32.text (x : Binary32) : String := String.ofList (NumeralStyle.message.text x)

end SpectrumViewer
