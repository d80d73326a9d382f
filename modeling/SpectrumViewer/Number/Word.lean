set_option autoImplicit false

/-!
Sizes are 64-bit words. A product or a sum that does not fit is an error of its own, never a
wrapped value.
-/

namespace SpectrumViewer

namespace Word

def count : Nat := UInt64.size

/-- A product of two words, if it is a word. -/
def product? (a b : Nat) : Option Nat := if a * b < count then some (a * b) else none

/-- A sum of two words, if it is a word. -/
def sum? (a b : Nat) : Option Nat := if a + b < count then some (a + b) else none

/-- The largest size of a block of memory in octets. -/
def largestBlock : Nat := UInt64.size / 2 - 1

theorem largestBlock_lt_count : largestBlock < count := by decide

theorem product?_eq_some {a b n : Nat} (h : product? a b = some n) : n = a * b ∧ n < count := by
  unfold product? at h
  split at h <;> simp_all

theorem product?_eq_some_of_lt {a b : Nat} (h : a * b < count) : product? a b = some (a * b) :=
  if_pos h

theorem sum?_eq_some {a b n : Nat} (h : sum? a b = some n) : n = a + b ∧ n < count := by
  unfold sum? at h
  split at h <;> simp_all

theorem sum?_eq_some_of_lt {a b : Nat} (h : a + b < count) : sum? a b = some (a + b) := if_pos h

end Word

end SpectrumViewer
