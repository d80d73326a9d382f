import SpectrumViewer.Number.Binary32

set_option autoImplicit false

/-!
Sine and exponential of single-precision numbers. Machines differ in the last places of both, so
nothing is settled about a pair of them but its ranges (`Elementary`). One such pair is summed from
power series in fixed-point arithmetic with `scaleBits` binary places, rounded to the nearest value
and limited to its range (`Elementary.series`).
-/

namespace SpectrumViewer

open BinaryFormat (single)

/-- A sine, of angles in radians, and an exponential. -/
structure Elementary where
  sine : Binary32 → Binary32
  exponential : Binary32 → Binary32
  sine_range : ∀ x, x.isFinite = true → -1 ≤ sine x ∧ sine x ≤ 1
  exponential_range : ∀ x, x ≤ 0 → 0 ≤ exponential x ∧ exponential x ≤ 1

namespace Elementary

open Binary32

/-- Binary places of the fixed-point numbers. -/
def scaleBits : Nat := 256

/-- The fixed-point number one. -/
def scale : Nat := Nat.pow 2 scaleBits

/-- A full turn, the nearest fixed-point number. -/
def fullTurn : Nat :=
  0x6487ed5110b4611a62633145c06e0e68948127044533e63a0105df531d89cd913

/-- The magnitude of a number of units as a fixed-point number. -/
def ofUnits (units : Nat) : Nat := units * Nat.pow 2 (scaleBits - single.unitBits)

def mulScaled (x y : Int) : Int := x * y / scale

/-- The terms of the sine series from the given one on: each is the one before it times
`-x * x / (n * (n + 1))`. -/
def sineTerms (square : Int) : (count n : Nat) → (term : Int) → Int
  | 0, _, _ => 0
  | count + 1, n, term =>
    term + sineTerms square count (n + 2) (-(mulScaled term square) / (n * (n + 1) : Nat))

/-- The sine of a fixed-point angle, which is first reduced to half a turn on either side of
zero. -/
def sineScaled (angle : Nat) : Int :=
  let rest : Int := angle % fullTurn
  let rest := if 2 * rest < fullTurn then rest else rest - fullTurn
  sineTerms (mulScaled rest rest) 32 2 rest

/-- The terms of the exponential series from the given one on. -/
def exponentialTerms (x : Int) : (count n : Nat) → (term : Int) → Int
  | 0, _, _ => 0
  | count + 1, n, term => term + exponentialTerms x count (n + 1) (mulScaled term x / (n : Nat))

/-- `x` squared a number of times. -/
def squared (x : Int) : Nat → Int
  | 0 => x
  | times + 1 => squared (mulScaled x x) times

/-- The exponential of minus a fixed-point number: that of its 1024th part, squared ten times. -/
def decayScaled (x : Nat) : Nat :=
  let part : Int := -(x / 1024 : Nat)
  (squared (exponentialTerms part 32 1 scale) 10).toNat

/-- The sine of an angle, summed and rounded. -/
def sineSum : Binary32 → Binary32
  | nan => nan
  | infinite _ => nan
  | finite s c =>
    if c.val = 0 then finite s c
    else
      let y := sineScaled (ofUnits (single.units c))
      rounded (s != decide (y < 0)) (y.natAbs * one) scale

/-- Beyond this exponent every exponential is too large or too small for single precision. -/
def exponentLimit : Nat := 110

/-- The exponential of a value, summed and rounded. -/
def exponentialSum : Binary32 → Binary32
  | nan => nan
  | infinite s => if s then 0 else infinite false
  | finite s c =>
    let u := single.units c
    if exponentLimit * one < u then (if s then 0 else infinite false)
    else
      let y := decayScaled (ofUnits u)
      if s then rounded false (y * one) scale else rounded false (scale * one) y

theorem isNaN_sineSum {x : Binary32} (finite : x.isFinite = true) : (sineSum x).isNaN = false := by
  cases x with
  | nan => cases finite
  | infinite s => cases finite
  | finite s c =>
    rw [sineSum]
    split
    · rfl
    · exact isNaN_ofCode _ _

theorem isNaN_exponentialSum {x : Binary32} (number : x.isNaN = false) :
    (exponentialSum x).isNaN = false := by
  cases x with
  | nan => cases number
  | infinite s => cases s <;> rfl
  | finite s c =>
    rw [exponentialSum]
    dsimp only
    split
    · cases s <;> rfl
    · split <;> exact isNaN_ofCode _ _

/-- The sums of both series, limited to their ranges. -/
def series : Elementary where
  sine x := (sineSum x).clamp (-1) 1
  exponential x := if x ≤ 0 then (exponentialSum x).clamp 0 1 else exponentialSum x
  sine_range _ finite := clamp_between (isNaN_sineSum finite) (by decide)
  exponential_range x below := by
    rw [if_pos below]
    exact clamp_between (isNaN_exponentialSum (isNaN_of_le below).1) (by decide)

end Elementary

end SpectrumViewer
