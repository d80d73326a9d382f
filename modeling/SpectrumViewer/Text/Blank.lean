set_option autoImplicit false

/-!
Blank characters, those with the Unicode property White_Space, and texts without blanks at their
ends.
-/

namespace SpectrumViewer

namespace Text

/-- The code points with the property White_Space, as closed ranges in ascending order. -/
def blankRanges : List (Nat × Nat) :=
  [(0x9, 0xD), (0x20, 0x20), (0x85, 0x85), (0xA0, 0xA0), (0x1680, 0x1680), (0x2000, 0x200A),
   (0x2028, 0x2029), (0x202F, 0x202F), (0x205F, 0x205F), (0x3000, 0x3000)]

def isBlank (c : Char) : Bool :=
  blankRanges.any fun (first, last) => decide (first ≤ c.toNat ∧ c.toNat ≤ last)

/-- Characters without those at the end that satisfy `p`. -/
def dropEnd (p : Char → Bool) (cs : List Char) : List Char :=
  (cs.reverse.dropWhile p).reverse

def trimmed (cs : List Char) : List Char := dropEnd isBlank (cs.dropWhile isBlank)

def trim (s : String) : String := String.ofList (trimmed s.toList)

def dropLineEnd (s : String) : String :=
  String.ofList (dropEnd (fun c => c = '\r' || c = '\n') s.toList)

/-- The pieces of a text between a separator: one more than there are separators. -/
def split (separator : Char) : List Char → List (List Char)
  | [] => [[]]
  | c :: cs =>
    if c = separator then [] :: split separator cs
    else match split separator cs with
      | piece :: pieces => (c :: piece) :: pieces
      | [] => [[c]]

@[simp] theorem toList_trim (s : String) : (trim s).toList = trimmed s.toList := by
  simp [trim]

end Text

end SpectrumViewer
