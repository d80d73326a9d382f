set_option autoImplicit false

/-!
Classes of characters, and places in a text. Texts are read with uniform line breaks: a carriage
return, with or without a line feed behind it, and a next-line character all stand for a line feed,
while the two separators of lines and paragraphs stay what they are.
-/

namespace SpectrumViewer

namespace Yaml

def isAllowed (c : Char) : Bool :=
  let n := c.toNat
  decide (n = 0x9 ∨ n = 0xA ∨ n = 0xD ∨ (0x20 ≤ n ∧ n ≤ 0x7E) ∨ n = 0x85 ∨
    (0xA0 ≤ n ∧ n ≤ 0xD7FF) ∨ (0xE000 ≤ n ∧ n ≤ 0xFFFD) ∨ 0x10000 ≤ n)

def lineSeparator : Char := '\u2028'
def paragraphSeparator : Char := '\u2029'
def nextLine : Char := '\u0085'
def byteOrderMark : Char := '\uFEFF'

/-- A line break of a text with uniform breaks. -/
def isBreak (c : Char) : Bool := c = '\n' || c = lineSeparator || c = paragraphSeparator

def isSpace (c : Char) : Bool := c = ' ' || c = '\t'

def isSpaceOrBreak (c : Char) : Bool := isSpace c || isBreak c

def isWord (c : Char) : Bool := c.isAlphanum || c = '_' || c = '-'

def uniformBreaks : List Char → List Char
  | [] => []
  | '\r' :: '\n' :: cs => '\n' :: uniformBreaks cs
  | c :: cs => (if c = '\r' || c = nextLine then '\n' else c) :: uniformBreaks cs

/-- Nothing, a space or tab, or a break comes next. -/
def endsWord : List Char → Bool
  | [] => true
  | c :: _ => isSpaceOrBreak c

/-- A line that starts with three hyphens or three dots and nothing right behind them. -/
def atDocumentMark : List Char → Bool
  | '-' :: '-' :: '-' :: cs => endsWord cs
  | '.' :: '.' :: '.' :: cs => endsWord cs
  | _ => false

/-- A place in a text: octets before it, lines before it, and characters before it on its line. -/
structure Position where
  offset : Nat
  line : Nat
  column : Nat
  deriving DecidableEq, Repr

def Position.start : Position := ⟨0, 0, 0⟩

def Position.next (p : Position) (c : Char) : Position :=
  if isBreak c then ⟨p.offset + c.utf8Size, p.line + 1, 0⟩
  else ⟨p.offset + c.utf8Size, p.line, p.column + 1⟩

def Position.over (p : Position) (cs : List Char) : Position := cs.foldl Position.next p

/-- What is left of a text, and where it starts. -/
structure Cursor where
  rest : List Char
  position : Position
  deriving DecidableEq, Repr

namespace Cursor

def drop (c : Cursor) (n : Nat) : Cursor := ⟨c.rest.drop n, c.position.over (c.rest.take n)⟩

/-- The characters up to the first without a property, and the place of that one. -/
def span (c : Cursor) (p : Char → Bool) : List Char × Cursor :=
  let front := c.rest.takeWhile p
  (front, ⟨c.rest.dropWhile p, c.position.over front⟩)

def skip (c : Cursor) (p : Char → Bool) : Cursor := (c.span p).2

/-- Behind spaces, tabs and a comment, before the end of the line. -/
def skipComment (c : Cursor) : Cursor :=
  let c := c.skip isSpace
  if c.rest.head? = some '#' then c.skip (!isBreak ·) else c

end Cursor

theorem uniformBreaks_cons {c : Char} {cs : List Char} (h : c ≠ '\r') (h' : c ≠ nextLine) :
    uniformBreaks (c :: cs) = c :: uniformBreaks cs := by
  rw [uniformBreaks]
  · simp [h, h']
  · rintro cs' rfl
    exact absurd rfl h

end Yaml

end SpectrumViewer
