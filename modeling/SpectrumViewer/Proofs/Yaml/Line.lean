import Mathlib.Tactic.Common
import SpectrumViewer.Yaml.Node.Basic
import SpectrumViewer.Yaml.Scalar.Printer
import SpectrumViewer.Yaml.Token.Scanner

set_option autoImplicit false

/-!
The lines of a block mapping. An entry is followed by nothing or by another entry that is indented
no further than its own mapping; there a scalar ends, and there scanning goes on.
-/

namespace SpectrumViewer

namespace Yaml

namespace Position

theorem over_cons (p : Position) (c : Char) (cs : List Char) :
    p.over (c :: cs) = (p.next c).over cs := rfl

theorem next_of_not_break {c : Char} (h : isBreak c = false) (p : Position) :
    p.next c = ⟨p.offset + c.utf8Size, p.line, p.column + 1⟩ := by
  rw [next, h]
  rfl

theorem column_next_of_break {c : Char} (h : isBreak c = true) (p : Position) :
    (p.next c).column = 0 := by
  rw [next, h]
  rfl

theorem column_over {cs : List Char} (oneLine : ∀ c ∈ cs, isBreak c = false) (p : Position) :
    (p.over cs).column = p.column + cs.length := by
  induction cs generalizing p with
  | nil => rfl
  | cons c cs ih =>
    obtain ⟨here, later⟩ := List.forall_mem_cons.mp oneLine
    rw [over_cons, ih later, next_of_not_break here, List.length_cons]
    exact Nat.add_right_comm p.column 1 cs.length

theorem line_over {cs : List Char} (oneLine : ∀ c ∈ cs, isBreak c = false) (p : Position) :
    (p.over cs).line = p.line := by
  induction cs generalizing p with
  | nil => rfl
  | cons c cs ih =>
    obtain ⟨here, later⟩ := List.forall_mem_cons.mp oneLine
    rw [over_cons, ih later, next_of_not_break here]

theorem offset_over_le (cs : List Char) (p : Position) :
    (p.over cs).offset ≤ p.offset + 4 * cs.length := by
  induction cs generalizing p with
  | nil => exact Nat.le_refl _
  | cons c cs ih =>
    have next : (p.next c).offset = p.offset + c.utf8Size := by
      unfold next
      split <;> rfl
    have width := c.utf8Size_le_four
    have others := ih (p.next c)
    rw [over_cons, List.length_cons]
    omega

theorem column_over_indentation (depth : Nat) (p : Position) :
    (p.over (Scalar.indentation depth)).column = p.column + depth := by
  rw [column_over, Scalar.indentation, List.length_replicate]
  intro c space
  rw [List.eq_of_mem_replicate space]
  rfl

end Position

theorem isBreak_iff {c : Char} :
    isBreak c = true ↔ c = '\n' ∨ c = lineSeparator ∨ c = paragraphSeparator := by
  simp [isBreak, or_assoc]

theorem isBreak_of_forall {p : Char → Bool} {c : Char} (h : p c = true)
    (none : ['\n', lineSeparator, paragraphSeparator].any p = false) : isBreak c = false := by
  rw [← Bool.not_eq_true, isBreak_iff]
  rintro (rfl | rfl | rfl) <;> simp_all

theorem not_hasNeighbours_cons {p q : Char → Bool} {c : Char} {cs : List Char}
    (h : Scalar.hasNeighbours p q (c :: cs) = false) :
    (p c = true → ∀ d ∈ cs.head?, q d = false) ∧ Scalar.hasNeighbours p q cs = false := by
  cases cs with
  | nil => exact ⟨fun _ _ first => (by cases first), rfl⟩
  | cons d cs =>
    obtain ⟨here, later⟩ := Bool.or_eq_false_iff.mp h
    refine ⟨fun holds other first => ?_, later⟩
    cases first
    rwa [holds, Bool.true_and] at here

namespace Gap

/-- The gap that is made of these spaces. -/
def ofSpaces : List Char → Gap
  | [] => none
  | c :: cs => spaces (c :: cs)

@[simp] theorem text_ofSpaces (cs : List Char) : (ofSpaces cs).text = cs := by
  cases cs <;> rfl

@[simp] theorem addSpace_ofSpaces (c : Char) (cs : List Char) :
    (ofSpaces cs).addSpace c = ofSpaces (c :: cs) := by
  cases cs <;> rfl

theorem ofSpaces_eq_none {cs : List Char} : ofSpaces cs = none ↔ cs.isEmpty = true := by
  cases cs <;> simp [ofSpaces]

end Gap

/-- What follows an entry of a mapping with the indentation: nothing, or another entry that is
indented no further. -/
inductive Follows (indent : Nat) : List Char → Prop where
  | nothing : Follows indent []
  | entry {depth : Nat} {c : Char} {rest : List Char} : depth ≤ indent → c.isAlpha = true →
      Follows indent (Scalar.indentation depth ++ c :: rest)

theorem Follows.mono {indent wider : Nat} {rest : List Char} (follows : Follows indent rest)
    (le : indent ≤ wider) : Follows wider rest := by
  cases follows with
  | nothing => exact .nothing
  | entry shallow alpha => exact .entry (Nat.le_trans shallow le) alpha

theorem ne_of_isAlpha {c : Char} (alpha : c.isAlpha = true) (other : Char)
    (h : other.isAlpha = false) : c ≠ other := by
  rintro rfl
  rw [alpha] at h
  cases h

theorem isBreak_of_isAlpha {c : Char} (alpha : c.isAlpha = true) : isBreak c = false := by
  simp [isBreak, ne_of_isAlpha alpha '\n' rfl, ne_of_isAlpha alpha lineSeparator rfl,
    ne_of_isAlpha alpha paragraphSeparator rfl]

theorem isSpace_of_isAlpha {c : Char} (alpha : c.isAlpha = true) : isSpace c = false := by
  simp [isSpace, ne_of_isAlpha alpha ' ' rfl, ne_of_isAlpha alpha '\t' rfl]

theorem ne_of_isWord {c : Char} (word : isWord c = true) (other : Char)
    (h : isWord other = false) : c ≠ other := by
  rintro rfl
  rw [word] at h
  cases h

theorem isSpaceOrBreak_of_isWord {c : Char} (word : isWord c = true) :
    isSpaceOrBreak c = false := by
  simp [isSpaceOrBreak, isSpace, isBreak, ne_of_isWord word ' ' rfl, ne_of_isWord word '\t' rfl,
    ne_of_isWord word '\n' rfl, ne_of_isWord word lineSeparator rfl,
    ne_of_isWord word paragraphSeparator rfl]

theorem indentation_succ (depth : Nat) (rest : List Char) :
    Scalar.indentation (depth + 1) ++ rest = ' ' :: (Scalar.indentation depth ++ rest) := rfl

/-- The first place behind what is between the tokens, where a key may start. -/
def settle (p : Position) (rest : List Char) : Cursor :=
  (Scanner.skipBetween false false true p rest).1

open Scanner in
theorem skipBetween_of_isAlpha {c : Char} (alpha : c.isAlpha = true) (p : Position)
    (keyAllowed : Bool) (rest : List Char) :
    skipBetween false false keyAllowed p (c :: rest) = (⟨c :: rest, p⟩, keyAllowed) := by
  rw [skipBetween, isBreak_of_isAlpha alpha]
  simp [ne_of_isAlpha alpha ' ' rfl, ne_of_isAlpha alpha '\t' rfl, ne_of_isAlpha alpha '#' rfl,
    ne_of_isAlpha alpha byteOrderMark rfl]

open Scanner in
theorem skipBetween_indentation (depth : Nat) (p : Position) (rest : List Char) :
    skipBetween false false true p (Scalar.indentation depth ++ rest) =
      skipBetween false false true (p.over (Scalar.indentation depth)) rest := by
  induction depth generalizing p with
  | zero => rfl
  | succ depth ih => exact ih (p.next ' ')

theorem settle_nil (p : Position) : settle p [] = ⟨[], p⟩ := rfl

theorem settle_entry {c : Char} (alpha : c.isAlpha = true) (depth : Nat) (p : Position)
    (rest : List Char) :
    settle p (Scalar.indentation depth ++ c :: rest) =
      ⟨c :: rest, p.over (Scalar.indentation depth)⟩ := by
  rw [settle, skipBetween_indentation, skipBetween_of_isAlpha alpha]

theorem Follows.column_settle {indent : Nat} {rest : List Char} (follows : Follows indent rest)
    {p : Position} (column : p.column = 0) : (settle p rest).position.column ≤ indent := by
  cases follows with
  | nothing =>
    rw [settle_nil, column]
    exact Nat.zero_le indent
  | entry shallow alpha =>
    rwa [settle_entry alpha, Position.column_over_indentation, column, Nat.zero_add]

/-- Where scanning goes on it finds nothing more to skip. -/
theorem Follows.skipBetween_settle {indent : Nat} {rest : List Char} (follows : Follows indent rest)
    (p : Position) :
    Scanner.skipBetween false false true (settle p rest).position (settle p rest).rest =
      Scanner.skipBetween false false true p rest := by
  cases follows with
  | nothing => rfl
  | entry _ alpha =>
    rw [settle_entry alpha, skipBetween_indentation]

/-- An entry of a mapping: its name, the lines behind the colon, the tokens of these lines, and the
node that they stand for. -/
structure Binding where
  name : String
  lines : List Char
  tokens : List Token
  node : Node

namespace Binding

def text (depth : Nat) (e : Binding) : List Char :=
  Scalar.indentation depth ++ (e.name.toList ++ ':' :: e.lines)

def allTokens (e : Binding) : List Token := .key :: .scalar .plain e.name :: .value :: e.tokens

def pair (e : Binding) : Node × Node := (.scalar none .plain e.name, e.node)

end Binding

end Yaml

end SpectrumViewer
