import SpectrumViewer.Pattern.Basic
import SpectrumViewer.Pattern.Fault

set_option autoImplicit false

/-!
The state of reading a pattern. Faults in how a text is written are found first; what is written
well but cannot be looked for is remembered until the whole text was read.
-/

namespace SpectrumViewer

namespace Pattern

/-- How the following parts of a text are read. -/
structure Flags where
  anyCase : Bool := false
  /-- Borders of the text are those of its lines. -/
  multiLine : Bool := false
  /-- A dot stands for line ends too. -/
  dotAll : Bool := false
  /-- Repetitions prefer to be short, which does not change where a pattern occurs. -/
  swapGreed : Bool := false
  unicode : Bool := true
  /-- Carriage returns end lines too. -/
  anyLineEnd : Bool := false
  /-- Blanks and comments between parts are passed over. -/
  spaced : Bool := false
  deriving DecidableEq, Repr

/-- The whole text and what is left of it, the flags, the names of groups, and the first thing that
cannot be looked for. `needsWords` says that borders of words were met that need a table. -/
structure Reading where
  text : List Char
  rest : List Char
  flags : Flags
  names : List (List Char × Span)
  late : Option Fault
  needsWords : Bool

abbrev Parse (α : Type) := StateT Reading (Except Fault) α

namespace Parse

/-- The number of characters before the next one. -/
def place : Parse Nat := do
  let s ← get
  return s.text.length - s.rest.length

def next : Parse (Option Char) := do return (← get).rest.head?

def advance : Parse Unit := modify fun s => { s with rest := s.rest.drop 1 }

/-- The span from a place to the next character. -/
def since (start : Nat) : Parse Span := do return ⟨start, ← place⟩

/-- No characters, before the next one. -/
def here : Parse Span := do since (← place)

def atNext : Parse Span := do
  let start ← place
  return ⟨start, start + 1⟩

def faultAt (kind : Fault.Kind) (span : Span) (earlier : Option Span) : Parse Fault := do
  return .inText (← get).text kind span earlier

def fail {α : Type} (kind : Fault.Kind) (span : Span) : Parse α := do
  throw (← faultAt kind span none)

def failAgain {α : Type} (kind : Fault.Kind) (span earlier : Span) : Parse α := do
  throw (← faultAt kind span (some earlier))

/-- Remembers what cannot be looked for, unless something else came first. -/
def failLate (kind : Fault.Kind) (span : Span) : Parse Unit := do
  let fault ← faultAt kind span none
  modify fun s => { s with late := s.late <|> some fault }

/-- What follows blanks and comments, each of which goes to the end of its line. -/
def afterSpace : (fuel : Nat) → List Char → List Char
  | 0, cs => cs
  | fuel + 1, cs =>
    let cs := cs.dropWhile Text.isBlank
    if cs.head? = some '#' then afterSpace fuel ((cs.dropWhile (· ≠ '\n')).drop 1) else cs

/-- Passes over blanks and comments where they do not count. -/
def skipSpace : Parse Unit := do
  if (← get).flags.spaced then
    modify fun s => { s with rest := afterSpace (s.rest.length + 1) s.rest }

def advanceSpace : Parse Unit := do
  advance
  skipSpace

/-- The character behind the next one. Where blanks do not count, they and the sign of a comment
are passed over. -/
def afterNext : Parse (Option Char) := do
  let s ← get
  let rest := s.rest.drop 1
  if s.flags.spaced then
    let rest := rest.dropWhile Text.isBlank
    if rest.head? = some '#' then return ((rest.drop 1).dropWhile Text.isBlank).head?
    else return rest.head?
  else return rest.head?

/-- Passes over some characters, if they come next. -/
def advanceOver (cs : List Char) : Parse Bool := do
  if cs.isPrefixOf (← get).rest then
    modify fun s => { s with rest := s.rest.drop cs.length }
    return true
  else return false

end Parse

end Pattern

end SpectrumViewer
