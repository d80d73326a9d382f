import SpectrumViewer.Proofs.Yaml.Scalar.Block
import SpectrumViewer.Proofs.Yaml.Scalar.Quoted
import SpectrumViewer.Proofs.Yaml.Token.Key

set_option autoImplicit false

/-!
The value of an entry: whatever style a text is written in, it is read as one scalar of that style
with that text (`prints_written`).
-/

namespace SpectrumViewer

namespace Yaml

namespace Scanner

/-- Lines behind the colon of a key are read as these tokens, whatever entry follows them. -/
structure Prints (depth : Nat) (lines : List Char) (tokens : List Token) : Prop where
  apart : ∀ rest, endsWord (lines ++ rest) = true
  scans : ∀ (b : Blocks) (p : Position) {rest : List Char}, b.indent = depth → depth < p.column →
    Follows depth rest → ∃ q : Position, q.column = 0 ∧
      Scans (b.scanner false ⟨lines ++ rest, p⟩) ((b.emit tokens).scanner true ⟨rest, q⟩)

theorem skipBetween_space {c : Char} (solid : isSpaceOrBreak c = false) (comment : c ≠ '#')
    (p : Position) (cs : List Char) :
    skipBetween false false false p (' ' :: c :: cs) = (⟨c :: cs, p.next ' '⟩, false) := by
  obtain ⟨noSpace, noBreak⟩ := Plain.isSpace_of_not solid
  have notSpace : c ≠ ' ' := by rintro rfl; cases noSpace
  have notTab : c ≠ '\t' := by rintro rfl; cases noSpace
  have inside : (p.next ' ').column = p.column + 1 := rfl
  have step : skipBetween false false false p (' ' :: c :: cs) =
      skipBetween false false false (p.next ' ') (c :: cs) := rfl
  rw [step, skipBetween, noBreak]
  simp [notSpace, notTab, comment, inside]

theorem scans_scalar {b : Blocks} {p q : Position} {c : Char} {cs rest : List Char} {s : Scanner}
    {token : Token} (inside : b.indent ≤ p.column) (solid : isSpaceOrBreak c = false)
    (comment : c ≠ '#') (step : (b.scanner false ⟨c :: cs, p.next ' '⟩).token c cs = .ok s)
    (skip : s.skip = ((b.emit [token]).scanner true ⟨rest, q⟩).skip)
    (length : rest.length ≤ cs.length) :
    Scans (b.scanner false ⟨' ' :: c :: cs, p⟩) ((b.emit [token]).scanner true ⟨rest, q⟩) := by
  refine ⟨1, ?_, fun fuel => ?_⟩
  · simp only [Blocks.scanner, List.length_cons]
    omega
  · have first : (b.scanner false ⟨' ' :: c :: cs, p⟩).skip =
        b.scanner false ⟨c :: cs, p.next ' '⟩ := by
      rw [Blocks.skip_scanner, skipBetween_space solid comment]
    have next : (p.next ' ').column = p.column + 1 := rfl
    have inside' : b.indent ≤ (p.next ' ').column := by omega
    rw [run_succ (first ▸ Blocks.dropStale_scanner b false _) inside' rfl step]
    exact run_congr skip fuel

theorem skip_settle {indent : Nat} {rest : List Char} (follows : Follows indent rest) (b : Blocks)
    (q : Position) : (b.scanner true (settle q rest)).skip = (b.scanner true ⟨rest, q⟩).skip := by
  rw [Blocks.skip_scanner b true q, ← follows.skipBetween_settle q]
  rfl

theorem prints_plain (depth : Nat) {cs : List Char} (holds : Plain.Holds cs) :
    Prints depth (' ' :: (cs ++ ['\n'])) [.scalar .plain (String.ofList cs)] := by
  refine ⟨fun _ => rfl, fun b p rest indent inside follows => ?_⟩
  obtain ⟨c, more, rfl, solid, lead, mark⟩ := holds.first
  have next : (p.next ' ').column = p.column + 1 := rfl
  have inside' : depth < (p.next ' ').column := by omega
  obtain ⟨q, column, read⟩ := Plain.read_line holds.tail follows inside'
  rw [← indent] at read
  let s := b.scanner false ⟨c :: (more ++ '\n' :: rest), p.next ' '⟩
  have token : s.token c (more ++ '\n' :: rest) = s.plainScalar :=
    token_plain rfl solid lead (fun h => Plain.endsWord_append (mark h) _)
      (fun start => by cases start)
  have step : s.plainScalar =
      .ok ((b.emit [.scalar .plain (String.ofList (c :: more))]).scanner true (settle q rest)) :=
    plainScalar_eq (t := s) rfl read
  have comment : c ≠ '#' := by rintro rfl; cases lead
  have scans := scans_scalar (b := b) (p := p) (by omega) solid comment (token.trans step)
    (skip_settle follows _ q) (by simp; omega)
  exact ⟨q, column, by simpa using scans⟩

theorem scans_quoted (double : Bool) {b : Blocks} {p q : Position} {cs text rest : List Char}
    (inside : b.indent ≤ p.column)
    (read : Quoted.read double ⟨(if double then '"' else '\'') :: cs, p.next ' '⟩ =
      .ok (text, ⟨'\n' :: rest, q⟩)) (length : rest.length ≤ cs.length) :
    Scans (b.scanner false ⟨' ' :: (if double then '"' else '\'') :: cs, p⟩)
      ((b.emit [.scalar (if double then .doubleQuoted else .singleQuoted)
        (String.ofList text)]).scanner true ⟨rest, q.next '\n'⟩) := by
  let c := if double then '"' else '\''
  let s := b.scanner false ⟨c :: cs, p.next ' '⟩
  have token : s.token c cs = s.quotedScalar double := by
    rw [Scanner.token]
    cases double <;> rfl
  have step : s.quotedScalar double =
      .ok ((b.emit [.scalar (if double then .doubleQuoted else .singleQuoted)
        (String.ofList text)]).scanner false ⟨'\n' :: rest, q⟩) := by
    have notMarked : s.markKey = .ok s := rfl
    rw [quotedScalar, node, notMarked]
    simp only [bind, Except.bind, pure, Except.pure]
    rw [show s.cursor = ⟨c :: cs, p.next ' '⟩ from rfl, read]
    rfl
  refine scans_scalar inside ?_ ?_ (token.trans step) rfl length
  · cases double <;> rfl
  · cases double <;> decide

theorem prints_singleQuoted (depth : Nat) {cs : List Char}
    (plainBreaks : ∀ c ∈ cs, c ≠ '\n' ∧ c ≠ '\t')
    (before : Scalar.hasNeighbours Scalar.isBlankChar isBreak cs = false)
    (behind : Scalar.hasNeighbours isBreak Scalar.isBlankChar cs = false) :
    Prints depth (' ' :: ('\'' :: Scalar.singleQuoted (depth + 2) false cs ++ ['\'', '\n']))
      [.scalar .singleQuoted (String.ofList cs)] := by
  refine ⟨fun _ => rfl, fun b p rest indent inside follows => ?_⟩
  obtain ⟨q, read⟩ := Quoted.read_singleQuoted (Nat.succ_pos (depth + 1)) plainBreaks before behind
    rest (p.next ' ')
  refine ⟨q.next '\n', rfl, ?_⟩
  have scans := scans_quoted false (b := b) (by omega) read (by simp; omega)
  simpa using scans

theorem prints_doubleQuoted (depth : Nat) (cs : List Char) :
    Prints depth (' ' :: ('"' :: cs.flatMap Scalar.doubleQuotedChar ++ ['"', '\n']))
      [.scalar .doubleQuoted (String.ofList cs)] := by
  refine ⟨fun _ => rfl, fun b p rest indent inside follows => ?_⟩
  obtain ⟨q, read⟩ := Quoted.read_doubleQuoted cs rest (p.next ' ')
  refine ⟨q.next '\n', rfl, ?_⟩
  have scans := scans_quoted true (b := b) (by omega) read (by simp; omega)
  simpa using scans

theorem prints_literal (depth : Nat) {cs : List Char} (nonempty : cs ≠ []) (noTab : '\t' ∉ cs) :
    Prints depth (' ' :: Scalar.literal (depth + 2) cs)
      [.scalar .literal (String.ofList cs)] := by
  refine ⟨fun _ => rfl, fun b p rest indent inside follows => ?_⟩
  obtain ⟨q, column, read⟩ := Block.read_literal nonempty noTab follows (p.next ' ')
  rw [← indent] at read
  obtain ⟨more, literal, length⟩ : ∃ more, Scalar.literal (depth + 2) cs ++ rest = '|' :: more ∧
      rest.length ≤ more.length := by
    refine ⟨_, Block.literal_append (depth + 2) cs rest, ?_⟩
    simp only [List.length_append, List.length_cons]
    omega
  rw [literal] at read
  let s := b.scanner false ⟨'|' :: more, p.next ' '⟩
  have token : s.token '|' more = s.blockScalar false := by
    rw [Scanner.token]
    rfl
  have step : s.blockScalar false =
      .ok ((b.emit [.scalar .literal (String.ofList cs)]).scanner true (settle q rest)) := by
    have notMarked : s.dropKey = .ok s := rfl
    rw [blockScalar, notMarked]
    simp only [bind, Except.bind, pure, Except.pure]
    rw [show s.cursor = ⟨'|' :: more, p.next ' '⟩ from rfl, show s.indent = b.indent from rfl, read]
    rfl
  have scans := scans_scalar (b := b) (p := p) (by omega) rfl (by decide) (token.trans step)
    (skip_settle follows _ q) length
  exact ⟨q, column, by rwa [List.cons_append, literal]⟩

/-- Every text is written as a scalar that is read as this text. -/
theorem prints_written (depth : Nat) (cs : List Char) :
    Prints depth (' ' :: Scalar.written (depth + 2) cs)
      [.scalar (Scalar.styleOf cs) (String.ofList cs)] := by
  have quoted := prints_doubleQuoted depth cs
  rw [Scalar.written]
  unfold Scalar.styleOf
  split_ifs with unfit lines blankEnd plain spaced
  · exact quoted
  · exact quoted
  all_goals
    obtain ⟨printable, before⟩ := Bool.or_eq_false_iff.mp (Bool.eq_false_iff.mpr unfit)
    simp only [Bool.not_eq_false', List.all_eq_true] at printable
    have noTab : '\t' ∉ cs := fun among => absurd (printable _ among) (by decide)
  · refine prints_literal depth ?_ noTab
    rintro rfl
    cases lines
  · exact prints_plain depth (Plain.holds_of_isPlain printable plain).1
  · exact quoted
  · refine prints_singleQuoted depth (fun c among => ⟨?_, ?_⟩) before (Bool.eq_false_iff.mpr spaced)
    · rintro rfl
      exact lines (List.contains_iff_mem.mpr among)
    · rintro rfl
      exact noTab among

end Scanner

end Yaml

end SpectrumViewer
