set_option autoImplicit false

/-!
Reading octets as UTF-8. The reader goes from octet to octet and remembers the sequence it is in.
Where an octet cannot continue a sequence, the octets of the sequence so far count as one fault and
the octet is read afresh; a sequence that is still open at the end is one fault too.
-/

namespace SpectrumViewer

namespace Utf8

/-- An open sequence: the octets still owed, the least and the greatest the next one may be, and
the bits read so far. -/
structure Pending where
  owed : Nat
  low : Nat
  high : Nat
  bits : Nat
  deriving DecidableEq, Repr

/-- The sequence that a first octet opens. Octets that could only begin an overlong form, a
surrogate or a number beyond Unicode open none. -/
def opened? (b : Nat) : Option Pending :=
  if 0xC2 ≤ b ∧ b ≤ 0xDF then some ⟨1, 0x80, 0xBF, b - 0xC0⟩
  else if b = 0xE0 then some ⟨2, 0xA0, 0xBF, 0⟩
  else if b = 0xED then some ⟨2, 0x80, 0x9F, 0xD⟩
  else if 0xE1 ≤ b ∧ b ≤ 0xEF then some ⟨2, 0x80, 0xBF, b - 0xE0⟩
  else if b = 0xF0 then some ⟨3, 0x90, 0xBF, 0⟩
  else if 0xF1 ≤ b ∧ b ≤ 0xF3 then some ⟨3, 0x80, 0xBF, b - 0xF0⟩
  else if b = 0xF4 then some ⟨3, 0x80, 0x8F, 4⟩
  else none

/-- An octet between sequences: what it completes and the sequence it opens. A fault is `none`. -/
def start (b : Nat) : List (Option Char) × Option Pending :=
  if b < 0x80 then ([some (Char.ofNat b)], none)
  else match opened? b with
    | some p => ([], some p)
    | none => ([none], none)

def step (state : Option Pending) (b : Nat) : List (Option Char) × Option Pending :=
  match state with
  | none => start b
  | some p =>
    if p.low ≤ b ∧ b ≤ p.high then
      let bits := p.bits * 64 + b % 64
      if p.owed = 1 then ([some (Char.ofNat bits)], none)
      else ([], some ⟨p.owed - 1, 0x80, 0xBF, bits⟩)
    else
      let (out, next) := start b
      (none :: out, next)

def decodeFrom : Option Pending → List UInt8 → List (Option Char)
  | none, [] => []
  | some _, [] => [none]
  | state, b :: bs => (step state b.toNat).1 ++ decodeFrom (step state b.toNat).2 bs

/-- The characters of octets, with `none` for each fault. -/
def decode (bs : List UInt8) : List (Option Char) := decodeFrom none bs

/-- The characters of octets, with a replacement character for each fault. -/
def lossy (bs : List UInt8) : List Char := (decode bs).map (·.getD '\uFFFD')

/-- The characters of octets without a fault. -/
def strict? (bs : List UInt8) : Option (List Char) := (decode bs).mapM id

def encode (s : String) : List UInt8 := s.toUTF8.toList

end Utf8

end SpectrumViewer
