import SpectrumViewer.Proofs.Yaml.Line

set_option autoImplicit false

/-!
Literal blocks come back as the texts that they were printed from (`read_literal`). The lines read
so far hold the text so far (`Reached`), apart in what they say of the breaks at its end, and the
mark of the block makes of these breaks what they were.
-/

namespace SpectrumViewer

namespace Yaml

namespace Block

open Scalar

variable {chomping : Chomping} {width : Nat}

/-- The lines that hold a text, its last character first, and whether its last line goes on. -/
inductive Reached : List Char → Lines → Bool → Prop where
  /-- There are only empty lines yet. -/
  | start {text : List Char} {spaced : Bool} : (∀ c ∈ text, isBreak c = true) →
      Reached text ⟨[], [], text, spaced⟩ false
  | line {c : Char} {text : List Char} {spaced : Bool} : isBreak c = false →
      Reached (c :: text) ⟨c :: text, [], [], spaced⟩ true
  /-- A line ended, and perhaps empty ones after it. -/
  | ended {c b : Char} {text more : List Char} {spaced : Bool} : isBreak c = false →
      (∀ d ∈ b :: more, isBreak d = true) →
      Reached (more ++ b :: c :: text) ⟨c :: text, [b], more, spaced⟩ false

theorem Reached.join {text : List Char} {l : Lines} (reached : Reached text l false)
    (spaced : Bool) : l.join false spaced = text := by
  cases reached with
  | start => simp [Lines.join]
  | ended => simp [Lines.join]

theorem Reached.atBreak {text : List Char} {l : Lines} {inside : Bool} {c : Char}
    (reached : Reached text l inside) (breaks : isBreak c = true) :
    Reached (c :: text)
      (if inside then { l with lineEnd := [c], empty := [] }
        else { l with empty := c :: l.empty }) false := by
  cases reached with
  | start allBreaks => exact .start (List.forall_mem_cons.mpr ⟨breaks, allBreaks⟩)
  | @line last text spaced solid =>
    have ended : Reached ([] ++ c :: last :: text) ⟨last :: text, [c], [], spaced⟩ false :=
      .ended solid (by simpa using breaks)
    exact ended
  | @ended last b text more spaced solid allBreaks =>
    obtain ⟨first, others⟩ := List.forall_mem_cons.mp allBreaks
    have ended : Reached ((c :: more) ++ b :: last :: text) ⟨last :: text, [b], c :: more, spaced⟩
        false := .ended solid (by simpa [first, breaks] using others)
    exact ended

theorem readLines_indentation (indent : Indent) (l : Lines) (depth : Nat) {p : Position}
    (within : ∀ column < p.column + depth, indent.covers column = true) (more : List Char) :
    readLines false chomping false indent l p (indentation depth ++ more) =
      readLines false chomping false indent l (p.over (indentation depth)) more := by
  induction depth generalizing p with
  | zero => rfl
  | succ depth ih =>
    have next : (p.next ' ').column = p.column + 1 := rfl
    rw [indentation_succ, readLines, if_neg (by decide),
      if_pos ⟨rfl, within p.column (by omega)⟩, ih fun column h => within column (by omega)]
    rfl

theorem readLines_solid (indent : Indent) {c : Char} (solid : isBreak c = false)
    {text : List Char} {l : Lines} (reached : Reached text l false) {p : Position}
    (column : p.column = 0) (within : ∀ column < width, indent.covers column = true)
    (beyond : isSpace c = false ∨ indent.covers width = false)
    (settled : indent.settle width = width) (more : List Char) :
    readLines false chomping false indent l p (indentation width ++ c :: more) =
      readLines false chomping true (.known width) ⟨c :: text, [], [], isSpace c⟩
        ((p.over (indentation width)).next c) more := by
  have at_width : (p.over (indentation width)).column = width := by
    rw [Position.column_over_indentation, column, Nat.zero_add]
  have notSpaced (space : isSpace c = true) : ¬ indent.covers width = true := by
    rcases beyond with visible | outside
    · exact absurd space (by simp [visible])
    · simp [outside]
  have within' : ∀ column < p.column + width, indent.covers column = true := by
    rwa [column, Nat.zero_add]
  rw [readLines_indentation indent l width within', readLines, at_width, if_neg (by decide),
    if_neg (fun h => notSpaced (by simp [isSpace, h.1]) h.2),
    if_neg (fun h => notSpaced (by simp [isSpace, h.1]) h.2), solid, if_neg (by decide), settled,
    reached.join]
  exact if_pos rfl

/-- A character of a text, with the indentation that is written in front of it. -/
theorem readLines_char (c : Char) {text : List Char} {l : Lines} {inside : Bool}
    (reached : Reached text l inside) {p : Position} (column : inside = false → p.column = 0)
    (cs more : List Char) :
    ∃ l' inside' q, Reached (c :: text) l' inside' ∧ (inside' = false → q.column = 0) ∧
      readLines false chomping inside (.known width) l p
          (literalLines width (!inside) (c :: cs) ++ more) =
        readLines false chomping inside' (.known width) l' q
          (literalLines width (!inside') cs ++ more) := by
  by_cases breaks : isBreak c = true
  · have column' : (p.next c).column = 0 := Position.column_next_of_break breaks p
    refine ⟨_, false, p.next c, reached.atBreak breaks, fun _ => column', ?_⟩
    rw [literalLines, if_pos breaks, List.cons_append, readLines]
    cases inside with
    | true => rw [if_pos rfl, if_pos breaks]; rfl
    | false =>
      have notSpace : c ≠ ' ' := by rintro rfl; cases breaks
      have notTab : c ≠ '\t' := by rintro rfl; cases breaks
      rw [if_neg (by decide), if_neg (fun h => notSpace h.1), if_neg (fun h => notTab h.1),
        if_pos breaks]
      rfl
  · have solid : isBreak c = false := Bool.eq_false_iff.mpr breaks
    rw [literalLines, if_neg breaks]
    cases inside with
    | true =>
      cases reached with
      | @line last before spaced _ =>
        refine ⟨⟨c :: last :: before, [], [], spaced⟩, true, p.next c, .line solid,
          fun h => (nomatch h), ?_⟩
        simp only [Bool.not_true, Bool.false_eq_true, if_false, List.nil_append, List.cons_append]
        rw [readLines, if_pos rfl, if_neg breaks]
    | false =>
      refine ⟨⟨c :: text, [], [], isSpace c⟩, true, (p.over (indentation width)).next c,
        .line solid, fun h => (nomatch h), ?_⟩
      simp only [Bool.not_false, if_true, List.append_assoc, List.cons_append]
      exact readLines_solid (.known width) solid reached (column rfl)
        (fun column h => decide_eq_true h) (.inr (decide_eq_false (Nat.lt_irrefl width))) rfl _

theorem readLines_append {text : List Char} {l : Lines} {inside : Bool}
    (reached : Reached text l inside) {p : Position} (column : inside = false → p.column = 0)
    (cs more : List Char) :
    ∃ l' inside' q, Reached (cs.reverse ++ text) l' inside' ∧ (inside' = false → q.column = 0) ∧
      readLines false chomping inside (.known width) l p (literalLines width (!inside) cs ++ more) =
        readLines false chomping inside' (.known width) l' q more := by
  induction cs generalizing text l inside p with
  | nil => exact ⟨l, inside, p, reached, column, rfl⟩
  | cons c cs ih =>
    obtain ⟨l₁, inside₁, q₁, reached₁, column₁, char⟩ := readLines_char c reached column cs more
    obtain ⟨l₂, inside₂, q₂, reached₂, column₂, others⟩ := ih reached₁ column₁
    refine ⟨l₂, inside₂, q₂, ?_, column₂, char.trans others⟩
    simpa using reached₂

theorem readLines_end {indent : Nat} {rest : List Char} (follows : Follows indent rest)
    (deeper : indent < width) (l : Lines) {p : Position} (column : p.column = 0) :
    readLines false chomping false (.known width) l p rest =
      .ok (l.finish chomping, settle p rest) := by
  cases follows with
  | nothing => rfl
  | @entry depth c rest shallow alpha =>
    have within : ∀ column < p.column + depth, (Indent.known width).covers column = true :=
      fun column h => decide_eq_true (by omega)
    have column' : (p.over (indentation depth)).column = depth := by
      rw [Position.column_over_indentation, column, Nat.zero_add]
    have short : (p.over (indentation depth)).column ≠ (Indent.known width).settle
        (p.over (indentation depth)).column := by
      rw [column']
      exact Nat.ne_of_lt (Nat.lt_of_le_of_lt shallow deeper)
    rw [readLines_indentation _ l depth within, readLines, settle_entry alpha,
      if_neg (by decide), if_neg (fun h => ne_of_isAlpha alpha ' ' rfl h.1),
      if_neg (fun h => ne_of_isAlpha alpha '\t' rfl h.1), isBreak_of_isAlpha alpha,
      if_neg (by decide)]
    exact if_neg short

/-- What the mark of a block asks for, for a text with its last character first. -/
def ending : List Char → Chomping
  | [] => .strip
  | c :: rest =>
    if !isBreak c then .strip else if (rest.head?.map isBreak).getD true then .keep else .clip

theorem Reached.finish_line {text : List Char} {l : Lines} (reached : Reached text l true) :
    Lines.finish (ending text) { l with lineEnd := ['\n'], empty := [] } = text.reverse := by
  cases reached with
  | line solid => simp [ending, solid, Lines.finish]

theorem Reached.finish_breaks {text : List Char} {l : Lines} (reached : Reached text l false)
    (nonempty : text ≠ []) : l.finish (ending text) = text.reverse := by
  cases reached with
  | start allBreaks =>
    have keep : ending text = .keep := by
      match text, nonempty, allBreaks with
      | [c], _, allBreaks => simp [ending, allBreaks]
      | c :: d :: text, _, allBreaks => simp [ending, allBreaks]
    simp [keep, Lines.finish]
  | @ended c b before more spaced solid allBreaks =>
    match more, allBreaks with
    | [], allBreaks =>
      have clip : ending ([] ++ b :: c :: before) = .clip := by simp_all [ending]
      rw [clip]
      rfl
    | [d], allBreaks =>
      have keep : ending ([d] ++ b :: c :: before) = .keep := by simp_all [ending]
      rw [keep]
      rfl
    | d :: e :: more, allBreaks =>
      have keep : ending (d :: e :: more ++ b :: c :: before) = .keep := by simp_all [ending]
      rw [keep]
      simp [Lines.finish]

/-- Whether a text leaves the indentation of its block open. -/
def startsBlank (cs : List Char) : Bool :=
  (cs.head?.map fun c => c = ' ' || isBreak c).getD false

def mark : Chomping → List Char
  | .strip => ['-']
  | .keep => ['+']
  | .clip => []

theorem literalHeader_eq (cs : List Char) :
    literalHeader cs = (if startsBlank cs then ['2'] else []) ++ mark (ending cs.reverse) := by
  rw [literalHeader, startsBlank]
  congr 1
  cases cs.reverse with
  | nil => rfl
  | cons c rest =>
    simp only [ending]
    split_ifs <;> rfl

theorem header_literalHeader (cs more : List Char) :
    header (literalHeader cs ++ '\n' :: more) =
      (⟨ending cs.reverse, if startsBlank cs then some 2 else none⟩,
        (literalHeader cs).length) := by
  rw [literalHeader_eq]
  cases startsBlank cs <;> cases ending cs.reverse <;> rfl

theorem readLines_unknown (indent : Nat) {c : Char} (solid : isBreak c = false)
    (visible : isSpace c = false) {p : Position} (column : p.column = 0) (more : List Char) :
    readLines false chomping false (.unknown 0 (indent + 1)) ⟨[], [], [], false⟩ p
        (indentation (indent + 2) ++ c :: more) =
      readLines false chomping false (.known (indent + 2)) ⟨[], [], [], false⟩ p
        (indentation (indent + 2) ++ c :: more) := by
  have start : Reached [] ⟨[], [], [], false⟩ false := .start (by simp)
  have settled : (Indent.unknown 0 (indent + 1)).settle (indent + 2) = indent + 2 := by
    simp only [Indent.settle]
    omega
  rw [readLines_solid _ solid start column (fun _ _ => rfl) (.inl visible) settled,
    readLines_solid (.known (indent + 2)) solid start column (fun column h => decide_eq_true h)
      (.inl visible) rfl]

theorem Reached.breaks {text : List Char} {l : Lines} {inside : Bool}
    (reached : Reached text l inside) (nonempty : text ≠ []) :
    (text.head?.map isBreak).getD false = !inside := by
  cases reached with
  | start allBreaks =>
    obtain ⟨c, text, rfl⟩ := List.exists_cons_of_ne_nil nonempty
    exact allBreaks c List.mem_cons_self
  | line solid => exact solid
  | @ended c b text more spaced solid allBreaks =>
    cases more with
    | nil => exact allBreaks b List.mem_cons_self
    | cons d more => exact allBreaks d (List.mem_cons_of_mem b List.mem_cons_self)

theorem readLines_literal {indent : Nat} {cs rest : List Char} (nonempty : cs ≠ [])
    (deeper : indent < width) (follows : Follows indent rest) {p : Position}
    (column : p.column = 0) :
    ∃ q, q.column = 0 ∧
      readLines false (ending cs.reverse) false (.known width) ⟨[], [], [], false⟩ p
          (literalLines width true cs ++
            ((if (cs.getLast?.map isBreak).getD false then [] else ['\n']) ++ rest)) =
        .ok (cs, settle q rest) := by
  have start : Reached [] ⟨[], [], [], false⟩ false := .start (by simp)
  obtain ⟨l, inside, q, reached, column', read⟩ := readLines_append start (fun _ => column) cs _
  rw [List.append_nil] at reached
  have nonempty' : cs.reverse ≠ [] := by simpa using nonempty
  rw [Bool.not_false] at read
  rw [read, ← List.head?_reverse, reached.breaks nonempty']
  cases inside with
  | true =>
    refine ⟨q.next '\n', rfl, ?_⟩
    rw [Bool.not_true, if_neg (by decide), List.cons_append, readLines, if_pos rfl,
      if_pos (by decide), List.nil_append, readLines_end follows deeper _ rfl, reached.finish_line,
      List.reverse_reverse]
  | false =>
    refine ⟨q, column' rfl, ?_⟩
    rw [Bool.not_false, if_pos rfl, List.nil_append, readLines_end follows deeper _ (column' rfl),
      reached.finish_breaks nonempty', List.reverse_reverse]

theorem literal_append (indent : Nat) (cs rest : List Char) :
    literal indent cs ++ rest = '|' :: (literalHeader cs ++ '\n' :: (literalLines indent true cs ++
      ((if (cs.getLast?.map isBreak).getD false then [] else ['\n']) ++ rest))) := by
  simp [literal]

theorem drop_header (header more : List Char) (p : Position) :
    (Cursor.drop ⟨'|' :: (header ++ '\n' :: more), p⟩ (header.length + 1)).skipComment =
      ⟨'\n' :: more, p.over ('|' :: header)⟩ := by
  have dropped : Cursor.drop ⟨'|' :: (header ++ '\n' :: more), p⟩ (header.length + 1) =
      ⟨'\n' :: more, p.over ('|' :: header)⟩ := by simp [Cursor.drop]
  rw [dropped]
  rfl

/-- A literal block is read as its text, up to where the next entry starts. -/
theorem read_literal {indent : Nat} {cs rest : List Char} (nonempty : cs ≠ [])
    (noTab : '\t' ∉ cs) (follows : Follows indent rest) (p : Position) :
    ∃ q, q.column = 0 ∧
      read false indent ⟨literal (indent + 2) cs ++ rest, p⟩ = .ok (cs, settle q rest) := by
  obtain ⟨q, column, lines⟩ := readLines_literal nonempty (Nat.lt_add_of_pos_right Nat.two_pos)
    follows (p := (p.over ('|' :: literalHeader cs)).next '\n') rfl
  refine ⟨q, column, ?_⟩
  rw [← lines]
  have parent : (max (indent : Int) 0).toNat = indent := by omega
  have least : (max ((indent : Int) + 1) 1).toNat = indent + 1 := by omega
  rw [literal_append, read]
  simp only [List.drop_succ_cons, List.drop_zero, header_literalHeader, drop_header, parent, least]
  rw [if_pos (by decide)]
  cases blank : startsBlank cs with
  | true => rfl
  | false =>
    obtain ⟨c, cs, rfl⟩ := List.exists_cons_of_ne_nil nonempty
    obtain ⟨notSpace, solid⟩ : ¬c = ' ' ∧ isBreak c = false := by simpa [startsBlank] using blank
    have notTab : c ≠ '\t' := fun tab => noTab (tab ▸ List.mem_cons_self)
    have visible : isSpace c = false := by simp [isSpace, notSpace, notTab]
    have indented : literalLines (indent + 2) true (c :: cs) =
        indentation (indent + 2) ++ c :: literalLines (indent + 2) false cs := by
      simp [literalLines, solid]
    rw [indented, List.append_assoc, List.cons_append]
    exact readLines_unknown indent solid visible rfl _

end Block

end Yaml

end SpectrumViewer
