set_option autoImplicit false

/-!
Patterns of text. A pattern is built of sets of characters and of borders, which look at the
characters on both sides of a place without passing one.
-/

namespace SpectrumViewer

/-- A set of characters. -/
inductive CharSet where
  /-- The characters of some closed ranges. -/
  | ranges (rs : List (Char × Char))
  | union (s t : CharSet)
  | inter (s t : CharSet)
  | diff (s t : CharSet)
  /-- The characters that are in one of two sets and not in the other. -/
  | symmDiff (s t : CharSet)
  | compl (s : CharSet)
  /-- With each ASCII letter, the same letter in the other case. -/
  | anyCase (s : CharSet)
  deriving DecidableEq, Repr

namespace CharSet

def empty : CharSet := ranges []

def single (c : Char) : CharSet := ranges [(c, c)]

/-- An ASCII letter in its other case. -/
def swapCase (c : Char) : Char := if c.isUpper then c.toLower else c.toUpper

def contains : CharSet → Char → Bool
  | ranges rs, c => rs.any fun (first, last) => decide (first ≤ c ∧ c ≤ last)
  | union s t, c => s.contains c || t.contains c
  | inter s t, c => s.contains c && t.contains c
  | diff s t, c => s.contains c && !t.contains c
  | symmDiff s t, c => s.contains c != t.contains c
  | compl s, c => !s.contains c
  | anyCase s, c => s.contains c || s.contains (swapCase c)

def digit : CharSet := ranges [('0', '9')]
def word : CharSet := ranges [('0', '9'), ('A', 'Z'), ('_', '_'), ('a', 'z')]
def space : CharSet := ranges [('\t', '\r'), (' ', ' ')]

end CharSet

/-- A place in a text, by the characters on both sides of it. -/
structure Spot where
  before : Option Char
  after : Option Char
  deriving DecidableEq, Repr

/-- What a border asks of a place. Lines end at a line feed, or, for the last two of the line
borders, at a carriage return, a line feed, or both together. -/
inductive Border where
  | textStart
  | textEnd
  | lineStart
  | lineEnd
  | anyLineStart
  | anyLineEnd
  | wordBorder
  | noWordBorder
  | wordStart
  | wordEnd
  /-- No word stands before. -/
  | wordStartHalf
  /-- No word stands behind. -/
  | wordEndHalf
  deriving DecidableEq, Repr

namespace Border

def isWord (c : Option Char) : Bool := c.any CharSet.word.contains

def holds (b : Border) (spot : Spot) : Bool :=
  let x := spot.before
  let y := spot.after
  match b with
  | .textStart => x.isNone
  | .textEnd => y.isNone
  | .lineStart => x.isNone || x = some '\n'
  | .lineEnd => y.isNone || y = some '\n'
  | .anyLineStart => x.isNone || x = some '\n' || (x = some '\r' && y ≠ some '\n')
  | .anyLineEnd => y.isNone || y = some '\r' || (y = some '\n' && x ≠ some '\r')
  | .wordBorder => isWord x != isWord y
  | .noWordBorder => isWord x == isWord y
  | .wordStart => !isWord x && isWord y
  | .wordEnd => isWord x && !isWord y
  | .wordStartHalf => !isWord x
  | .wordEndHalf => !isWord y

end Border

inductive Pattern where
  | empty
  | one (set : CharSet)
  | border (b : Border)
  | seq (p q : Pattern)
  | alt (p q : Pattern)
  /-- A number of times, up to a greatest number if there is one. -/
  | repeated (p : Pattern) (least : Nat) (most : Option Nat)
  deriving DecidableEq, Repr

namespace Pattern

def ofList : List Pattern → Pattern
  | [] => .empty
  | [p] => p
  | p :: ps => .seq p (ofList ps)

end Pattern

end SpectrumViewer
