import SpectrumViewer.Proofs.Yaml.Scalar.Block
import SpectrumViewer.Proofs.Yaml.Scalar.Quoted

set_option autoImplicit false

/-!
A scalar is written with characters that stand for themselves, whatever its text is
(`printable_written`).
-/

namespace SpectrumViewer

namespace Yaml

namespace Scalar

variable {cs : List Char}

theorem isPrintable_of_visible {c : Char} (least : 0x20 ≤ c.toNat) (most : c.toNat ≤ 0x7E) :
    isPrintable c = true := by
  have allowed : isAllowed c = true := by
    simp only [isAllowed, decide_eq_true_eq]
    exact .inr (.inr (.inr (.inl ⟨least, most⟩)))
  have other (d : Char) (outside : d.toNat < 0x20 ∨ 0x7E < d.toNat) : c ≠ d := by
    rintro rfl
    omega
  simp [isPrintable, allowed, other '\t' (by decide), other '\r' (by decide),
    other nextLine (by decide), other byteOrderMark (by decide)]

theorem isPrintable_of_range (low high : Char) (least : 0x20 ≤ low.toNat)
    (most : high.toNat ≤ 0x7E) {c : Char} (within : low.toNat ≤ c.toNat ∧ c.toNat ≤ high.toNat) :
    isPrintable c = true :=
  isPrintable_of_visible (Nat.le_trans least within.1) (Nat.le_trans within.2 most)

theorem isPrintable_of_isDigit {c : Char} (digit : c.isDigit = true) : isPrintable c = true :=
  isPrintable_of_range '0' '9' (by decide) (by decide) (Char.isDigit_iff_toNat.mp digit)

theorem isPrintable_of_isHex {c : Char} (hex : Text.isHex c = true) : isPrintable c = true := by
  simp only [Text.isHex, Bool.or_eq_true, Bool.and_eq_true, decide_eq_true_eq] at hex
  rcases hex with (digit | lower) | upper
  · exact isPrintable_of_isDigit digit
  · exact isPrintable_of_range 'a' 'f' (by decide) (by decide) lower
  · exact isPrintable_of_range 'A' 'F' (by decide) (by decide) upper

theorem isPrintable_of_isWord {c : Char} (word : isWord c = true) : isPrintable c = true := by
  simp only [isWord, Bool.or_eq_true, decide_eq_true_eq] at word
  rcases word with (alphanumeric | rfl) | rfl
  · rcases Bool.or_eq_true_iff.mp alphanumeric with letter | digit
    · rcases Bool.or_eq_true_iff.mp letter with upper | lower
      · exact isPrintable_of_range 'A' 'Z' (by decide) (by decide) (of_decide_eq_true upper)
      · exact isPrintable_of_range 'a' 'z' (by decide) (by decide)
          ((Bool.and_eq_true_iff.mp lower).imp of_decide_eq_true of_decide_eq_true)
    · exact isPrintable_of_isDigit digit
  · rfl
  · rfl

theorem printable_indentation (indent : Nat) : ∀ c ∈ indentation indent, isPrintable c = true := by
  intro c among
  rw [List.eq_of_mem_replicate among]
  rfl

theorem printable_singleQuoted (indent : Nat) (lineStart : Bool)
    (printable : ∀ c ∈ cs, isPrintable c = true) :
    ∀ c ∈ singleQuoted indent lineStart cs, isPrintable c = true := by
  have indented : ∀ c ∈ if lineStart then indentation indent else [], isPrintable c = true := by
    split
    · exact printable_indentation indent
    · simp
  induction cs generalizing lineStart with
  | nil => exact indented
  | cons c cs ih =>
    obtain ⟨here, later⟩ := List.forall_mem_cons.mp printable
    rw [singleQuoted]
    split
    · exact List.forall_mem_cons.mpr ⟨here, ih true later (printable_indentation indent)⟩
    · refine List.forall_mem_append.mpr
        ⟨List.forall_mem_append.mpr ⟨indented, ?_⟩, ih false later (by simp)⟩
      split
      · exact List.all_eq_true.mp rfl
      · simpa using here

theorem printable_literalLines (indent : Nat) (lineStart : Bool)
    (printable : ∀ c ∈ cs, isPrintable c = true) :
    ∀ c ∈ literalLines indent lineStart cs, isPrintable c = true := by
  induction cs generalizing lineStart with
  | nil => simp [literalLines]
  | cons c cs ih =>
    obtain ⟨here, later⟩ := List.forall_mem_cons.mp printable
    rw [literalLines]
    split
    · exact List.forall_mem_cons.mpr ⟨here, ih true later⟩
    · refine List.forall_mem_append.mpr ⟨?_, List.forall_mem_cons.mpr ⟨here, ih false later⟩⟩
      split
      · exact printable_indentation indent
      · simp

theorem printable_literalHeader (cs : List Char) :
    ∀ c ∈ literalHeader cs, isPrintable c = true := by
  rw [Block.literalHeader_eq]
  cases Block.startsBlank cs <;> cases Block.ending cs.reverse <;>
    exact List.all_eq_true.mp rfl

theorem printable_literal (indent : Nat) (printable : ∀ c ∈ cs, isPrintable c = true) :
    ∀ c ∈ literal indent cs, isPrintable c = true := by
  have lastBreak : ∀ c ∈ if (cs.getLast?.map isBreak).getD false then [] else ['\n'],
      isPrintable c = true := by
    split <;> exact List.all_eq_true.mp rfl
  have header := printable_literalHeader cs
  have lines := printable_literalLines indent true printable
  refine List.forall_mem_append.mpr ⟨?_, lastBreak⟩
  refine List.forall_mem_append.mpr ⟨?_, List.forall_mem_cons.mpr ⟨rfl, lines⟩⟩
  exact List.forall_mem_cons.mpr ⟨rfl, header⟩

theorem printable_hexDigits (width n : Nat) :
    ∀ c ∈ hexDigits width n, isPrintable c = true := by
  refine List.forall_mem_append.mpr ⟨fun c among => ?_, fun c among => ?_⟩
  · rw [List.eq_of_mem_replicate among]
    rfl
  · exact isPrintable_of_isHex ((Quoted.hexNumber_toDigits n).1 c among)

theorem printable_escapeSequence (c : Char) : ∀ d ∈ escapeSequence c, isPrintable d = true := by
  have letters : ∀ pair ∈ Quoted.escapes,
      ((Quoted.escapes.find? (·.2 = pair.2)).all fun first => isPrintable first.1) = true := by
    decide
  unfold escapeSequence
  split
  · next letter char found =>
    have fits := letters _ (List.mem_of_find?_eq_some found)
    have same : char = c := by simpa using List.find?_some found
    rw [same, found] at fits
    simpa using fits
  · dsimp only
    split
    · exact List.forall_mem_cons.mpr ⟨rfl, printable_hexDigits 2 _⟩
    · split
      · exact List.forall_mem_cons.mpr ⟨rfl, printable_hexDigits 4 _⟩
      · exact List.forall_mem_cons.mpr ⟨rfl, printable_hexDigits 8 _⟩

theorem printable_doubleQuotedChar (c : Char) : ∀ d ∈ doubleQuotedChar c, isPrintable d = true := by
  unfold doubleQuotedChar
  split
  · exact List.forall_mem_cons.mpr ⟨rfl, printable_escapeSequence c⟩
  · next plain =>
    simp only [Bool.not_eq_true, Bool.or_eq_false_iff, Bool.not_eq_false'] at plain
    simpa using plain.1.1.1

/-- Whatever a text holds, its scalar can stand in a document. -/
theorem printable_written (indent : Nat) (cs : List Char) :
    ∀ c ∈ written indent cs, isPrintable c = true := by
  have quoted : ∀ c ∈ '"' :: cs.flatMap doubleQuotedChar ++ ['"', '\n'], isPrintable c = true := by
    refine List.forall_mem_append.mpr
      ⟨List.forall_mem_cons.mpr ⟨rfl, fun c among => ?_⟩, List.all_eq_true.mp rfl⟩
    obtain ⟨d, -, here⟩ := List.mem_flatMap.mp among
    exact printable_doubleQuotedChar d c here
  rw [written]
  unfold styleOf
  split_ifs with unfit lines blankEnd plain spaced
  · exact quoted
  · exact quoted
  all_goals
    obtain ⟨all, -⟩ := Bool.or_eq_false_iff.mp (Bool.eq_false_iff.mpr unfit)
    simp only [Bool.not_eq_false', List.all_eq_true] at all
  · exact printable_literal indent all
  · exact List.forall_mem_append.mpr ⟨all, List.all_eq_true.mp rfl⟩
  · exact quoted
  · refine List.forall_mem_append.mpr
      ⟨List.forall_mem_cons.mpr ⟨rfl, ?_⟩, List.all_eq_true.mp rfl⟩
    exact printable_singleQuoted indent false all

end Scalar

end Yaml

end SpectrumViewer
