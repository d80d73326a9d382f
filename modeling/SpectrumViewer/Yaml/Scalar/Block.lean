import SpectrumViewer.Yaml.Character
import SpectrumViewer.Yaml.Error

set_option autoImplicit false

/-!
Block scalars: a header, and indented lines that are kept as they are or folded into words. The
header may give the indentation and say what becomes of the line breaks at the end.
-/

namespace SpectrumViewer

namespace Yaml

/-- What becomes of the line breaks at the end: the last one is kept, none, or all. -/
inductive Chomping where
  | clip
  | strip
  | keep
  deriving DecidableEq, Repr

namespace Block

structure Header where
  chomping : Chomping
  /-- The indentation beyond that of the parent, if it is given. -/
  indent : Option Nat
  deriving DecidableEq, Repr

def chomping? : Char → Option Chomping
  | '+' => some .keep
  | '-' => some .strip
  | _ => none

/-- A digit but zero, which indents nothing. -/
def indent? (c : Char) : Option Nat :=
  if c.isDigit ∧ c ≠ '0' then some (c.toNat - '0'.toNat) else none

/-- The marks behind the character that opens a block scalar, in either order. -/
def header (cs : List Char) : Header × Nat :=
  match cs with
  | [] => (⟨.clip, none⟩, 0)
  | a :: rest =>
    let second := rest.head?
    match chomping? a, indent? a with
    | some chomping, _ =>
      match second.bind indent? with
      | some n => (⟨chomping, some n⟩, 2)
      | none => (⟨chomping, none⟩, 1)
    | none, some n =>
      match second.bind chomping? with
      | some chomping => (⟨chomping, some n⟩, 2)
      | none => (⟨.clip, some n⟩, 1)
    | none, none => (⟨.clip, none⟩, 0)

/-- The lines read so far: the text and its pending breaks, each with the last character first. -/
structure Lines where
  text : List Char
  /-- The break that ended the last line. -/
  lineEnd : List Char
  /-- The breaks of the empty lines after it. -/
  empty : List Char
  /-- Whether the last line started with a space or tab. -/
  spaced : Bool

/-- The text before a next line that starts with a space or tab, or does not. Folding turns a
single line feed between two lines into a space and drops the first of more, unless one of the
lines is spaced. -/
def Lines.join (folded : Bool) (l : Lines) (spaced : Bool) : List Char :=
  let lineEnd :=
    if folded && l.lineEnd = ['\n'] && !l.spaced && !spaced then
      if l.empty = [] then [' '] else []
    else l.lineEnd
  l.empty ++ lineEnd ++ l.text

def Lines.finish (chomping : Chomping) (l : Lines) : List Char :=
  (match chomping with
    | .strip => l.text
    | .clip => l.lineEnd ++ l.text
    | .keep => l.empty ++ l.lineEnd ++ l.text).reverse

/-- The indentation of a scalar: given, or still to be found as the widest of its leading lines
and at least `least`. -/
inductive Indent where
  | known (n : Nat)
  | unknown (widest least : Nat)

/-- Whether a column is still within the indentation. -/
def Indent.covers (column : Nat) : Indent → Bool
  | known n => decide (column < n)
  | unknown .. => true

/-- The indentation when a line starts in a column. -/
def Indent.settle (column : Nat) : Indent → Nat
  | known n => n
  | unknown widest least => max (max widest column) least

/-- The indentation after an empty line up to a column. -/
def Indent.widen (column : Nat) : Indent → Indent
  | known n => known n
  | unknown widest least => unknown (max widest column) least

/-- Reads lines: inside one, or in the indentation before one. -/
def readLines (folded : Bool) (chomping : Chomping) (inside : Bool) (indent : Indent) (l : Lines)
    (p : Position) : List Char → Except Error (List Char × Cursor)
  | [] => .ok (l.finish chomping, ⟨[], p⟩)
  | c :: rest =>
    if inside then
      if isBreak c then
        readLines folded chomping false indent { l with lineEnd := [c], empty := [] } (p.next c)
          rest
      else
        readLines folded chomping true indent { l with text := c :: l.text } (p.next c) rest
    else if c = ' ' ∧ indent.covers p.column then
      readLines folded chomping false indent l (p.next c) rest
    else if c = '\t' ∧ indent.covers p.column then .error .tab
    else if isBreak c then
      readLines folded chomping false (indent.widen p.column) { l with empty := c :: l.empty }
        (p.next c) rest
    else
      let n := indent.settle p.column
      if p.column = n then
        readLines folded chomping true (.known n)
          ⟨c :: l.join folded (isSpace c), [], [], isSpace c⟩ (p.next c) rest
      else .ok (l.finish chomping, ⟨c :: rest, p⟩)

/-- Reads the block scalar that starts at a place, with the character that opens it; `parent` is
the indentation around it. -/
def read (folded : Bool) (parent : Int) (c : Cursor) : Except Error (List Char × Cursor) :=
  let (h, taken) := header (c.rest.drop 1)
  let c := (c.drop (taken + 1)).skipComment
  let indent := match h.indent with
    | some n => .known ((max parent 0).toNat + n)
    | none => .unknown 0 (max (parent + 1) 1).toNat
  let lines : Lines := ⟨[], [], [], false⟩
  match c.rest with
  | [] => .ok ([], c)
  | b :: rest =>
    if isBreak b then
      readLines folded h.chomping false indent lines (c.position.next b) rest
    else .error .header

end Block

end Yaml

end SpectrumViewer
