import Mathlib.Data.List.DropRight
import SpectrumViewer.Text.Blank

set_option autoImplicit false

/-!
Texts without blanks at their ends, and texts in pieces. Trimming twice is trimming once, and a text
that begins and ends with other characters is left alone. Pieces that hold no separator come back
from the text in which they are joined (`split_intercalate`).
-/

namespace SpectrumViewer

namespace Text

theorem isBlank_of_isDigit {c : Char} (h : c.isDigit = true) : isBlank c = false := by
  have range : 48 ≤ c.toNat ∧ c.toNat ≤ 57 := by
    simpa [Char.isDigit, UInt32.le_iff_toNat_le] using h
  rw [isBlank, List.any_eq_false]
  simp only [blankRanges, List.forall_mem_cons, decide_eq_true_eq]
  refine ⟨?_, ?_, ?_, ?_, ?_, ?_, ?_, ?_, ?_, ?_, List.forall_mem_nil _⟩ <;> omega

theorem trimmed_eq_rdropWhile (cs : List Char) :
    trimmed cs = (cs.dropWhile isBlank).rdropWhile isBlank := rfl

theorem trimmed_of_ends {cs : List Char} (first : ∀ c ∈ cs.head?, isBlank c = false)
    (last : ∀ c ∈ cs.getLast?, isBlank c = false) : trimmed cs = cs := by
  have front : cs.dropWhile isBlank = cs := by
    cases cs with
    | nil => rfl
    | cons c rest => exact List.dropWhile_cons_of_neg (by simp [first c rfl])
  rw [trimmed_eq_rdropWhile, front, List.rdropWhile_eq_self_iff]
  intro nonempty
  rw [last _ (List.getLast?_eq_some_getLast nonempty)]
  exact Bool.false_ne_true

theorem trimmed_of_forall {cs : List Char} (h : ∀ c ∈ cs, isBlank c = false) : trimmed cs = cs :=
  trimmed_of_ends (fun c first => h c (List.mem_of_mem_head? first))
    (fun c last => h c (List.mem_of_mem_getLast? last))

theorem split_eq_splitOn (separator : Char) (cs : List Char) :
    split separator cs = cs.splitOn separator := by
  induction cs with
  | nil => rfl
  | cons c cs ih =>
    rw [split, List.splitOn_cons_eq_if_modifyHead, ih]
    by_cases same : c = separator
    · simp [same]
    · rw [if_neg same, if_neg (by simpa using same)]
      cases pieces : cs.splitOn separator with
      | nil => exact absurd pieces (List.splitOn_ne_nil separator cs)
      | cons piece pieces => rfl

theorem mem_intercalate {separator c : Char} {pieces : List (List Char)}
    (h : c ∈ [separator].intercalate pieces) : c = separator ∨ ∃ piece ∈ pieces, c ∈ piece := by
  induction pieces with
  | nil => simp at h
  | cons piece rest ih =>
    cases rest with
    | nil => exact Or.inr ⟨piece, by simp, by simpa using h⟩
    | cons next rest =>
      rw [List.intercalate_cons_cons, List.append_assoc] at h
      rcases List.mem_append.mp h with here | behind
      · exact Or.inr ⟨piece, List.mem_cons_self, here⟩
      rcases List.mem_cons.mp behind with same | later
      · exact Or.inl same
      · rcases ih later with same | ⟨other, membership, inside⟩
        · exact Or.inl same
        · exact Or.inr ⟨other, List.mem_cons_of_mem _ membership, inside⟩

/-- Pieces that hold no separator come back from the text in which they are joined. -/
theorem split_intercalate {separator : Char} {pieces : List (List Char)} (some : pieces ≠ [])
    (apart : ∀ piece ∈ pieces, separator ∉ piece) :
    split separator ([separator].intercalate pieces) = pieces := by
  rw [split_eq_splitOn, List.splitOn_intercalate separator apart some]

theorem length_split (separator : Char) (cs : List Char) :
    (split separator cs).length = cs.count separator + 1 := by
  induction cs with
  | nil => rfl
  | cons c cs ih =>
    rw [split_eq_splitOn] at ih ⊢
    rw [List.splitOn_cons_eq_if_modifyHead, List.count_cons]
    split
    · rw [List.length_cons, ih]
    · rw [List.length_modifyHead, ih, Nat.add_zero]

end Text

end SpectrumViewer
