import SpectrumViewer.Number.BinaryFormat

set_option autoImplicit false

/-!
Single-precision numbers. A value is not a number, an infinity, or a sign with the code of a
finite magnitude. Each operation computes the exact result in units of `2 ^ (-149)` and rounds it
once, to the nearest magnitude with ties to even.

The order is that of signed codes (`rank`): both zeros have rank zero, and nothing is below or
above a value that is not a number.
-/

namespace SpectrumViewer

open BinaryFormat (single)

inductive Binary32 where
  | nan
  | infinite (negative : Bool)
  | finite (negative : Bool) (code : Fin single.infinityCode)
  deriving DecidableEq, Repr

namespace Binary32

/-- `n` with the sign. -/
def signed (negative : Bool) (n : Nat) : Int := if negative then -n else n

/-- The zero of a sign. -/
def zeroOf (negative : Bool) : Binary32 := finite negative ⟨0, by decide⟩

/-- The magnitude with a code up to infinity's, with a sign. -/
def ofCode (negative : Bool) (code : Nat) : Binary32 :=
  if h : code < single.infinityCode then finite negative ⟨code, h⟩ else infinite negative

/-- The value nearest to `num / den` units, with a sign. -/
def rounded (negative : Bool) (num den : Nat) : Binary32 :=
  ofCode negative (single.nearest num den)

/-- One, in units. -/
def one : Nat := Nat.pow 2 single.unitBits

/-- The value nearest to a natural number. -/
def ofNat (n : Nat) : Binary32 := rounded false (n * one) 1

instance : Inhabited Binary32 := ⟨zeroOf false⟩
instance (n : Nat) : OfNat Binary32 n := ⟨ofNat n⟩

/-- The value nearest to `num / den`. -/
def ofRatio (num den : Nat) : Binary32 := rounded false (num * one) den

def isNaN : Binary32 → Bool
  | nan => true
  | _ => false

def isFinite : Binary32 → Bool
  | finite .. => true
  | _ => false

def neg : Binary32 → Binary32
  | nan => nan
  | infinite s => infinite !s
  | finite s c => finite (!s) c

def abs : Binary32 → Binary32
  | nan => nan
  | infinite _ => infinite false
  | finite _ c => finite false c

/-- A sum of two finite values that is exactly zero is positive, unless both are negative. -/
def add : Binary32 → Binary32 → Binary32
  | nan, _ => nan
  | _, nan => nan
  | infinite s, infinite t => if s = t then infinite s else nan
  | infinite s, finite .. => infinite s
  | finite .., infinite t => infinite t
  | finite s a, finite t b =>
    let sum := signed s (single.units a) + signed t (single.units b)
    if sum = 0 then zeroOf (s && t) else rounded (decide (sum < 0)) sum.natAbs 1

def sub (x y : Binary32) : Binary32 := add x y.neg

/-- Zero times an infinity is not a number. -/
def mul : Binary32 → Binary32 → Binary32
  | nan, _ => nan
  | _, nan => nan
  | infinite s, infinite t => infinite (s != t)
  | infinite s, finite t b => if b.val = 0 then nan else infinite (s != t)
  | finite s a, infinite t => if a.val = 0 then nan else infinite (s != t)
  | finite s a, finite t b => rounded (s != t) (single.units a * single.units b) one

/-- A quotient of two zeros or of two infinities is not a number. -/
def div : Binary32 → Binary32 → Binary32
  | nan, _ => nan
  | _, nan => nan
  | infinite _, infinite _ => nan
  | infinite s, finite t _ => infinite (s != t)
  | finite s _, infinite t => zeroOf (s != t)
  | finite s a, finite t b =>
    if b.val = 0 then (if a.val = 0 then nan else infinite (s != t))
    else rounded (s != t) (single.units a * one) (single.units b)

/-- The root of a negative value is not a number, but that of negative zero is itself. An odd
numerator over two stands for an inexact root, which is never half way between two codes. -/
def sqrt : Binary32 → Binary32
  | nan => nan
  | infinite s => if s then nan else infinite false
  | finite s c =>
    if c.val = 0 then finite s c
    else if s then nan
    else
      let n := single.units c * one
      let r := floorSqrt n
      rounded false (if r * r = n then 2 * r else 2 * r + 1) 2

instance : Neg Binary32 := ⟨neg⟩
instance : Add Binary32 := ⟨add⟩
instance : Sub Binary32 := ⟨sub⟩
instance : Mul Binary32 := ⟨mul⟩
instance : Div Binary32 := ⟨div⟩

/-- The place of a value in the order, if it has one. -/
def rank : Binary32 → Option Int
  | nan => none
  | infinite s => some (signed s single.infinityCode)
  | finite s c => some (signed s c)

def less (x y : Binary32) : Bool :=
  match x.rank, y.rank with
  | some a, some b => decide (a < b)
  | _, _ => false

def lessOrEqual (x y : Binary32) : Bool :=
  match x.rank, y.rank with
  | some a, some b => decide (a ≤ b)
  | _, _ => false

instance : LT Binary32 := ⟨fun x y => x.less y = true⟩
instance : LE Binary32 := ⟨fun x y => x.lessOrEqual y = true⟩
instance (x y : Binary32) : Decidable (x < y) := inferInstanceAs (Decidable (_ = true))
instance (x y : Binary32) : Decidable (x ≤ y) := inferInstanceAs (Decidable (_ = true))

/-- Equal in the order: both zeros are equal, and a value that is not a number differs from
itself. -/
def same (x y : Binary32) : Bool :=
  match x.rank, y.rank with
  | some a, some b => decide (a = b)
  | _, _ => false

/-- The larger of two values; one that is not a number gives way, and of equals the first. -/
def max (x y : Binary32) : Binary32 :=
  if x.isNaN then y else if x < y then y else x

/-- `x` limited to `[low, high]`. -/
def clamp (x low high : Binary32) : Binary32 :=
  if x < low then low else if high < x then high else x

/-- The number of whole ones in a value, at most `limit`: zero for negative values and for what
is not a number. -/
def floorNat (limit : Nat) : Binary32 → Nat
  | nan => 0
  | infinite s => if s then 0 else limit
  | finite s c => if s then 0 else Nat.min (single.units c / one) limit

/-- The nearest whole number, ties away from zero, limited to a byte: zero for negative values
and for what is not a number. -/
def roundByte : Binary32 → UInt8
  | nan => 0
  | infinite s => if s then 0 else 255
  | finite s c => if s then 0 else UInt8.ofNat (Nat.min (roundHalfUp (single.units c) one) 255)

/-- The sign bit above the 31 bits of the code. Every value that is not a number has the same
pattern. -/
def toBits : Binary32 → UInt32
  | nan => 0x7FC00000
  | infinite s => if s then 0xFF800000 else 0x7F800000
  | finite s c => UInt32.ofNat c.val ||| (if s then 0x80000000 else 0)

theorem units_zero : single.units 0 = 0 := rfl

theorem isNaN_ofCode (negative : Bool) (code : Nat) : (ofCode negative code).isNaN = false := by
  unfold ofCode
  split <;> rfl

variable {x y : Binary32}

theorem le_iff_rank : x ≤ y ↔ ∃ a b, x.rank = some a ∧ y.rank = some b ∧ a ≤ b := by
  show lessOrEqual x y = true ↔ _
  rw [lessOrEqual]
  cases x.rank <;> cases y.rank <;> simp

theorem lt_iff_rank : x < y ↔ ∃ a b, x.rank = some a ∧ y.rank = some b ∧ a < b := by
  show less x y = true ↔ _
  rw [less]
  cases x.rank <;> cases y.rank <;> simp

theorem isNaN_of_le (h : x ≤ y) : x.isNaN = false ∧ y.isNaN = false := by
  rw [le_iff_rank] at h
  obtain ⟨a, b, rankX, rankY, -⟩ := h
  cases x <;> cases y <;> simp_all [rank, isNaN]

theorem exists_rank (number : x.isNaN = false) : ∃ a, x.rank = some a := by
  cases x with
  | nan => cases number
  | infinite s => exact ⟨_, rfl⟩
  | finite s c => exact ⟨_, rfl⟩

theorem le_or_lt (hx : x.isNaN = false) (hy : y.isNaN = false) : x ≤ y ∨ y < x := by
  obtain ⟨a, rankX⟩ := exists_rank hx
  obtain ⟨b, rankY⟩ := exists_rank hy
  rw [le_iff_rank, lt_iff_rank]
  by_cases less : b < a
  · exact Or.inr ⟨b, a, rankY, rankX, less⟩
  · exact Or.inl ⟨a, b, rankX, rankY, Int.not_lt.mp less⟩

theorem le_self (number : x.isNaN = false) : x ≤ x := by
  obtain ⟨a, rank⟩ := exists_rank number
  exact le_iff_rank.mpr ⟨a, a, rank, rank, Int.le_refl a⟩

theorem clamp_between {low high : Binary32} (number : x.isNaN = false) (ordered : low ≤ high) :
    low ≤ x.clamp low high ∧ x.clamp low high ≤ high := by
  obtain ⟨lowNumber, highNumber⟩ := isNaN_of_le ordered
  unfold clamp
  split
  · exact ⟨le_self lowNumber, ordered⟩
  · rename_i above
    split
    · exact ⟨ordered, le_self highNumber⟩
    · rename_i below
      exact ⟨(le_or_lt lowNumber number).resolve_right above,
        (le_or_lt number highNumber).resolve_right below⟩

end Binary32

end SpectrumViewer
