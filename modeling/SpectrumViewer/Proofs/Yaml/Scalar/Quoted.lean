import Mathlib.Algebra.Ring.Nat
import SpectrumViewer.Proofs.Yaml.Line

set_option autoImplicit false

/-!
Quoted scalars come back as the texts that they were printed from. Between single quotes the breaks
of a text stand for themselves as long as no space stands beside them (`read_singleQuoted`); between
double quotes every character may stand, if need be as an escape sequence (`read_doubleQuoted`).
-/

namespace SpectrumViewer

namespace Yaml

namespace Quoted

open Scalar

variable {rest : List Char}

theorem text_breaks {first : Char} (other : first ≠ '\n') (more : List Char) :
    (Gap.breaks first more).text = more ++ [first] := by
  cases more with
  | nil => exact if_neg other
  | cons => exact if_neg other

theorem readSingle_indentation (text : List Char) (first : Char) (more : List Char) (depth : Nat)
    (p : Position) :
    readSingle text (.breaks first more) p (indentation depth ++ rest) =
      readSingle text (.breaks first more) (p.over (indentation depth)) rest := by
  induction depth generalizing p with
  | zero => rfl
  | succ depth ih =>
    rw [indentation_succ, readSingle.eq_def]
    exact ih (p.next ' ')

theorem readSingle_end (text : List Char) (gap : Gap) {p : Position} (inside : 0 < p.column) :
    readSingle text gap p ('\'' :: '\n' :: rest) =
      .ok ((gap.text ++ text).reverse, ⟨'\n' :: rest, p.next '\''⟩) := by
  rw [readSingle.eq_def]
  dsimp only
  rw [if_neg (by decide), if_neg (by decide), if_neg (by omega), if_pos rfl]
  rfl

theorem readSingle_solid {c : Char} (solid : isSpaceOrBreak c = false) (text : List Char)
    (gap : Gap) {p : Position} (inside : 0 < p.column) (more : List Char) :
    ∃ q : Position, 0 < q.column ∧
      readSingle text gap p ((if c = '\'' then ['\'', '\''] else [c]) ++ more) =
        readSingle (c :: (gap.text ++ text)) .none q more := by
  obtain ⟨noSpace, noBreak⟩ := Bool.or_eq_false_iff.mp solid
  by_cases quote : c = '\''
  · subst quote
    refine ⟨(p.next '\'').next '\'', Nat.succ_pos _, ?_⟩
    rw [if_pos rfl, List.cons_append, List.singleton_append, readSingle.eq_def]
    dsimp only
    rw [if_neg (by decide), if_neg (by decide), if_neg (by omega), if_pos rfl]
    rfl
  · refine ⟨p.next c, ?_, ?_⟩
    · rw [Position.next_of_not_break noBreak]
      exact Nat.succ_pos _
    · rw [if_neg quote, List.singleton_append, readSingle.eq_def]
      dsimp only
      rw [noSpace, noBreak, if_neg (by simp), if_neg (by simp), if_neg (by omega), if_neg quote]

/-- Where the reading of a text between single quotes may be, with what is left of the text: inside
of a line behind spaces, or in front of one. -/
inductive Between : Bool → Gap → Position → List Char → Prop where
  | line {spaces cs : List Char} {p : Position} : 0 < p.column →
      (spaces ≠ [] → ∀ c ∈ cs.head?, isBreak c = false) → Between false (.ofSpaces spaces) p cs
  | start {first : Char} {more cs : List Char} {p : Position} : p.column = 0 → first ≠ '\n' →
      (∀ c ∈ cs.head?, c ≠ ' ') → Between true (.breaks first more) p cs

variable {lineStart : Bool} {gap : Gap} {p : Position} {c : Char} {cs : List Char}

theorem Between.addBreak (between : Between lineStart gap p (c :: cs)) (breaks : isBreak c = true)
    (noFeed : c ≠ '\n') (behind : ∀ d ∈ cs.head?, isBlankChar d = false) :
    Between true (gap.addBreak c) (p.next c) cs ∧ (gap.addBreak c).text = c :: gap.text := by
  have column : (p.next c).column = 0 := Position.column_next_of_break breaks p
  have next : ∀ d ∈ cs.head?, d ≠ ' ' := by
    rintro _ first rfl
    exact absurd (behind ' ' first) (by decide)
  cases between with
  | @line spaces _ _ _ apart =>
    have none : spaces = [] := by
      by_contra nonempty
      exact absurd (apart nonempty c rfl) (by simp [breaks])
    subst none
    exact ⟨.start column noFeed next, text_breaks noFeed []⟩
  | @start first more _ _ _ other _ =>
    refine ⟨.start column other next, ?_⟩
    rw [Gap.addBreak, text_breaks other, text_breaks other]
    rfl

theorem readSingle_break (lineStart : Bool) (breaks : isBreak c = true) (noTab : c ≠ '\t')
    (indent : Nat) (text : List Char) (gap : Gap) (p : Position) (cs more : List Char) :
    readSingle text gap p (singleQuoted indent lineStart (c :: cs) ++ more) =
      readSingle text (gap.addBreak c) (p.next c) (singleQuoted indent true cs ++ more) := by
  have noSpace : isSpace c = false := by
    rw [isSpace, decide_eq_false, decide_eq_false noTab, Bool.or_false]
    rintro rfl
    cases breaks
  rw [singleQuoted, if_pos breaks, List.cons_append, readSingle.eq_def]
  dsimp only
  rw [noSpace, breaks]
  rfl

theorem readSingle_char {indent : Nat} (indented : 0 < indent)
    (between : Between lineStart gap p (c :: cs)) (noFeed : c ≠ '\n') (noTab : c ≠ '\t')
    (before : isBlankChar c = true → ∀ d ∈ cs.head?, isBreak d = false)
    (behind : isBreak c = true → ∀ d ∈ cs.head?, isBlankChar d = false) (text more : List Char) :
    ∃ lineStart' gap' q text', Between lineStart' gap' q cs ∧
      gap'.text ++ text' = c :: (gap.text ++ text) ∧
      readSingle text gap p (singleQuoted indent lineStart (c :: cs) ++ more) =
        readSingle text' gap' q (singleQuoted indent lineStart' cs ++ more) := by
  by_cases breaks : isBreak c = true
  · obtain ⟨between', added⟩ := between.addBreak breaks noFeed (behind breaks)
    refine ⟨true, _, _, text, between', by rw [added]; rfl, ?_⟩
    exact readSingle_break lineStart breaks noTab indent text gap p cs more
  have noBreak : isBreak c = false := Bool.eq_false_iff.mpr breaks
  by_cases space : c = ' '
  · subst space
    cases between with
    | @line spaces _ _ inside _ =>
      refine ⟨false, .ofSpaces (' ' :: spaces), p.next ' ', text,
        .line (Nat.succ_pos _) fun _ => before rfl, by simp, ?_⟩
      rw [← Gap.addSpace_ofSpaces, singleQuoted, if_neg (by decide), readSingle.eq_def]
      rfl
    | start _ _ apart => exact absurd rfl (apart ' ' rfl)
  · have solid : isSpaceOrBreak c = false := by
      simp [isSpaceOrBreak, isSpace, noBreak, space, noTab]
    obtain ⟨start, inside, indentation⟩ : ∃ start : Position, 0 < start.column ∧
        readSingle text gap p (singleQuoted indent lineStart (c :: cs) ++ more) =
          readSingle text gap start ((if c = '\'' then ['\'', '\''] else [c]) ++
            (singleQuoted indent false cs ++ more)) := by
      rw [singleQuoted, if_neg breaks, List.append_assoc, List.append_assoc]
      cases between with
      | line inside _ => exact ⟨p, inside, rfl⟩
      | start column _ _ =>
        refine ⟨_, ?_, readSingle_indentation text _ _ indent p⟩
        rw [Position.column_over_indentation]
        omega
    obtain ⟨q, inside', read⟩ := readSingle_solid solid text gap inside
      (singleQuoted indent false cs ++ more)
    exact ⟨false, .ofSpaces [], q, c :: (gap.text ++ text),
      .line inside' fun nonempty => absurd rfl nonempty, rfl, indentation.trans read⟩

theorem readSingle_append {indent : Nat} (indented : 0 < indent)
    (between : Between lineStart gap p cs) (plainBreaks : ∀ c ∈ cs, c ≠ '\n' ∧ c ≠ '\t')
    (before : hasNeighbours isBlankChar isBreak cs = false)
    (behind : hasNeighbours isBreak isBlankChar cs = false) (text rest : List Char) :
    ∃ q, readSingle text gap p (singleQuoted indent lineStart cs ++ '\'' :: '\n' :: rest) =
      .ok ((cs.reverse ++ (gap.text ++ text)).reverse, ⟨'\n' :: rest, q⟩) := by
  induction cs generalizing lineStart gap p text with
  | nil =>
    cases between with
    | line inside => exact ⟨_, readSingle_end text _ inside⟩
    | start column =>
      refine ⟨_, (readSingle_indentation text _ _ indent p).trans (readSingle_end text _ ?_)⟩
      rw [Position.column_over_indentation]
      omega
  | cons c cs ih =>
    obtain ⟨⟨noFeed, noTab⟩, laterBreaks⟩ := List.forall_mem_cons.mp plainBreaks
    obtain ⟨beforeHere, laterBefore⟩ := not_hasNeighbours_cons before
    obtain ⟨behindHere, laterBehind⟩ := not_hasNeighbours_cons behind
    obtain ⟨lineStart', gap', q, text', between', same, step⟩ := readSingle_char indented between
      noFeed noTab beforeHere behindHere text ('\'' :: '\n' :: rest)
    obtain ⟨r, read⟩ := ih between' laterBreaks laterBefore laterBehind text'
    refine ⟨r, ?_⟩
    rw [step, read, same]
    simp

/-- A text between single quotes comes back, unless it holds line feeds or tabs or has spaces
beside its breaks. -/
theorem read_singleQuoted {indent : Nat} (indented : 0 < indent) {cs : List Char}
    (plainBreaks : ∀ c ∈ cs, c ≠ '\n' ∧ c ≠ '\t')
    (before : hasNeighbours isBlankChar isBreak cs = false)
    (behind : hasNeighbours isBreak isBlankChar cs = false) (rest : List Char) (p : Position) :
    ∃ q, read false ⟨'\'' :: singleQuoted indent false cs ++ '\'' :: '\n' :: rest, p⟩ =
      .ok (cs, ⟨'\n' :: rest, q⟩) := by
  have line : Between false (.ofSpaces []) (p.next '\'') cs :=
    .line (Nat.succ_pos _) fun nonempty => absurd rfl nonempty
  obtain ⟨q, read⟩ := readSingle_append indented line plainBreaks before behind [] rest
  refine ⟨q, Eq.trans ?_ (read.trans ?_)⟩
  · rfl
  · simp

theorem hexValue_toUpper {d : Nat} (small : d < 16) :
    Text.isHex (Nat.digitChar d).toUpper = true ∧ Text.hexValue (Nat.digitChar d).toUpper = d := by
  revert small
  revert d
  decide

theorem hexNumber_append (front : List Char) (c : Char) :
    Text.hexNumber (front ++ [c]) = 16 * Text.hexNumber front + Text.hexValue c := by
  rw [Text.hexNumber, List.foldl_append]
  rfl

theorem hexNumber_toDigits (n : Nat) :
    (∀ c ∈ (Nat.toDigits 16 n).map Char.toUpper, Text.isHex c = true) ∧
      Text.hexNumber ((Nat.toDigits 16 n).map Char.toUpper) = n := by
  induction n using Nat.strongRecOn with
  | ind n ih =>
    rcases Nat.lt_or_ge n 16 with small | large
    · obtain ⟨digit, value⟩ := hexValue_toUpper small
      rw [Nat.toDigits_of_lt_base small]
      refine ⟨by simpa using digit, ?_⟩
      rw [List.map_singleton, Text.hexNumber]
      simpa using value
    · obtain ⟨digits, number⟩ := ih (n / 16) (by omega)
      obtain ⟨digit, value⟩ := hexValue_toUpper (Nat.mod_lt n (by decide : 16 > 0))
      rw [Nat.toDigits_of_base_le (by decide) large, List.map_append, List.map_singleton]
      refine ⟨List.forall_mem_append.mpr ⟨digits, by simpa using digit⟩, ?_⟩
      rw [hexNumber_append, number, value]
      omega

theorem hexDigits_spec {width n : Nat} (positive : 0 < width) (small : n < 16 ^ width) :
    (hexDigits width n).length = width ∧ (∀ c ∈ hexDigits width n, Text.isHex c = true) ∧
      Text.hexNumber (hexDigits width n) = n := by
  obtain ⟨digits, number⟩ := hexNumber_toDigits n
  have fits : ((Nat.toDigits 16 n).map Char.toUpper).length ≤ width := by
    rw [List.length_map, Nat.length_toDigits_le_iff (by decide) positive]
    exact small
  unfold hexDigits
  generalize (Nat.toDigits 16 n).map Char.toUpper = ds at digits number fits
  refine ⟨?_, ?_, ?_⟩
  · rw [List.length_append, List.length_replicate]
    omega
  · refine List.forall_mem_append.mpr ⟨fun c zero => ?_, digits⟩
    rw [List.eq_of_mem_replicate zero]
    rfl
  · have zeros (k : Nat) : Text.hexNumber (List.replicate k '0' ++ ds) = Text.hexNumber ds := by
      induction k with
      | zero => rfl
      | succ k ih => exact ih
    rw [zeros, number]

theorem charOfHex?_hexDigits {width : Nat} (positive : 0 < width) {c : Char}
    (small : c.toNat < 16 ^ width) :
    Text.charOfHex? (hexDigits width c.toNat) = some c := by
  obtain ⟨-, digits, number⟩ := hexDigits_spec positive small
  have valid : c.toNat.isValidChar := c.valid
  rw [Text.charOfHex?, number, if_pos ⟨List.all_eq_true.mpr digits, valid⟩, Char.ofNat_toNat]

theorem escape?_hex (digits more : List Char) :
    (digits.length = 2 → escape? ('x' :: (digits ++ more)) = (Text.charOfHex? digits).map (·, 3)) ∧
    (digits.length = 4 → escape? ('u' :: (digits ++ more)) = (Text.charOfHex? digits).map (·, 5)) ∧
    (digits.length = 8 →
      escape? ('U' :: (digits ++ more)) = (Text.charOfHex? digits).map (·, 9)) := by
  refine ⟨fun h => ?_, fun h => ?_, fun h => ?_⟩
  · match digits, h with
    | [_, _], _ => rfl
  · match digits, h with
    | [_, _, _, _], _ => rfl
  · match digits, h with
    | [_, _, _, _, _, _, _, _], _ => rfl

theorem escape?_letter {c : Char} (x : c ≠ 'x') (u : c ≠ 'u') (U : c ≠ 'U') (more : List Char) :
    escape? (c :: more) = (escapes.lookup c).map (·, 1) := by
  unfold escape?
  split
  · next same =>
    cases same
    exact absurd rfl x
  · next same =>
    cases same
    exact absurd rfl u
  · next same =>
    cases same
    exact absurd rfl U
  · next same =>
    cases same
    rfl
  · next same => cases same

theorem escapes_spec : ∀ pair ∈ escapes, (pair.1 ≠ 'x' ∧ pair.1 ≠ 'u' ∧ pair.1 ≠ 'U') ∧
    isBreak pair.1 = false ∧ escapes.lookup pair.1 = some pair.2 := by
  decide

/-- An escape sequence stands for its character, and fits on the line. -/
theorem escape?_escapeSequence (c : Char) (more : List Char) :
    escape? (escapeSequence c ++ more) = some (c, (escapeSequence c).length) ∧
      ∀ d ∈ escapeSequence c, isBreak d = false := by
  have noBreak {width : Nat} {letter : Char} (first : isBreak letter = false)
      (positive : 0 < width) (small : c.toNat < 16 ^ width) :
      ∀ d ∈ letter :: hexDigits width c.toNat, isBreak d = false := by
    refine List.forall_mem_cons.mpr ⟨first, fun d digit => ?_⟩
    exact isBreak_of_forall ((hexDigits_spec positive small).2.1 d digit) (by decide)
  unfold escapeSequence
  split
  · next letter char found =>
    have among := List.mem_of_find?_eq_some found
    have same : char = c := by simpa using List.find?_some found
    obtain ⟨⟨x, u, U⟩, line, stands⟩ := escapes_spec _ among
    rw [List.singleton_append, escape?_letter x u U, stands, same]
    exact ⟨rfl, by simpa using line⟩
  · have bound : c.toNat < 16 ^ 8 := by
      have valid : c.toNat < 0xD800 ∨ 0xDFFF < c.toNat ∧ c.toNat < 0x110000 := c.valid
      omega
    dsimp only
    by_cases narrow : c.toNat < 0x100
    · obtain ⟨length, -, -⟩ := hexDigits_spec (by decide : 0 < 2) narrow
      rw [if_pos narrow, List.cons_append, (escape?_hex _ more).1 length,
        charOfHex?_hexDigits (by decide) narrow, List.length_cons, length]
      exact ⟨rfl, noBreak rfl (by decide) narrow⟩
    by_cases middle : c.toNat < 0x10000
    · obtain ⟨length, -, -⟩ := hexDigits_spec (by decide : 0 < 4) middle
      rw [if_neg narrow, if_pos middle, List.cons_append, (escape?_hex _ more).2.1 length,
        charOfHex?_hexDigits (by decide) middle, List.length_cons, length]
      exact ⟨rfl, noBreak rfl (by decide) middle⟩
    · obtain ⟨length, -, -⟩ := hexDigits_spec (by decide : 0 < 8) bound
      rw [if_neg narrow, if_neg middle, List.cons_append, (escape?_hex _ more).2.2 length,
        charOfHex?_hexDigits (by decide) bound, List.length_cons, length]
      exact ⟨rfl, noBreak rfl (by decide) bound⟩

theorem readDouble_skip (skipped : List Char) (text : List Char) (gap : Gap) (p : Position) :
    readDouble skipped.length text gap p (skipped ++ rest) =
      readDouble 0 text gap (p.over skipped) rest := by
  induction skipped generalizing p with
  | nil => rfl
  | cons c skipped ih =>
    rw [List.cons_append, readDouble, List.length_cons, if_pos (Nat.succ_ne_zero _)]
    exact ih (p.next c)

theorem escapeSequence_ne_nil (c : Char) : escapeSequence c ≠ [] := by
  unfold escapeSequence
  split
  · exact List.cons_ne_nil _ _
  · dsimp only
    split
    · exact List.cons_ne_nil _ _
    · split <;> exact List.cons_ne_nil _ _

theorem readDouble_escaped (c : Char) (text : List Char) (gap : Gap) {p : Position}
    (inside : 0 < p.column) :
    readDouble 0 text gap p ('\\' :: escapeSequence c ++ rest) =
      readDouble 0 (c :: (gap.text ++ text)) .none ((p.next '\\').over (escapeSequence c))
        rest := by
  obtain ⟨stands, line⟩ := escape?_escapeSequence c rest
  obtain ⟨first, others, same⟩ := List.exists_cons_of_ne_nil (escapeSequence_ne_nil c)
  have noBreak : ((escapeSequence c ++ rest).head?.map isBreak).getD false = false := by
    rw [same]
    exact line first (same ▸ List.mem_cons_self)
  rw [List.cons_append, readDouble, if_neg (by decide), if_neg (by decide), if_neg (by decide),
    if_neg (by omega), if_neg (by decide), if_pos rfl, noBreak, if_neg (by decide), stands]
  exact readDouble_skip _ _ _ _

/-- A character between double quotes adds itself to the text, or to the gap if it is a space. -/
theorem readDouble_char (c : Char) (text spaces rest : List Char) {p : Position}
    (inside : 0 < p.column) :
    ∃ q text' spaces', 0 < q.column ∧ spaces' ++ text' = c :: (spaces ++ text) ∧
      readDouble 0 text (.ofSpaces spaces) p (doubleQuotedChar c ++ rest) =
        readDouble 0 text' (.ofSpaces spaces') q rest := by
  unfold doubleQuotedChar
  by_cases escaped : (!isPrintable c || isBreak c || c = '"' || c = '\\') = true
  · rw [if_pos escaped, readDouble_escaped c text _ inside, Gap.text_ofSpaces]
    refine ⟨_, c :: (spaces ++ text), [], ?_, rfl, rfl⟩
    rw [Position.column_over (escape?_escapeSequence c []).2]
    exact Nat.lt_add_right _ (Nat.succ_pos _)
  · rw [if_neg escaped, List.singleton_append]
    simp only [Bool.or_eq_true, Bool.not_eq_true', decide_eq_true_eq, not_or] at escaped
    obtain ⟨⟨⟨printable, atBreak⟩, noQuote⟩, noSlash⟩ := escaped
    have noBreak : isBreak c = false := Bool.eq_false_iff.mpr atBreak
    have column : 0 < (p.next c).column := by
      rw [Position.next_of_not_break noBreak]
      exact Nat.succ_pos _
    by_cases space : c = ' '
    · subst space
      refine ⟨_, text, ' ' :: spaces, column, rfl, ?_⟩
      rw [readDouble, if_neg (by decide), if_pos (by decide), Gap.addSpace_ofSpaces]
    · have noSpace : isSpace c = false := by
        rw [isSpace, decide_eq_false space, Bool.false_or, decide_eq_false_iff_not]
        rintro rfl
        exact printable (by decide)
      refine ⟨_, c :: (spaces ++ text), [], column, rfl, ?_⟩
      rw [readDouble, if_neg (by decide), noSpace, noBreak, if_neg (by simp), if_neg (by simp),
        if_neg (by omega), if_neg noQuote, if_neg noSlash, Gap.text_ofSpaces]
      rfl

theorem readDouble_append (cs text spaces rest : List Char) {p : Position}
    (inside : 0 < p.column) :
    ∃ q, readDouble 0 text (.ofSpaces spaces) p
        (cs.flatMap doubleQuotedChar ++ '"' :: '\n' :: rest) =
      .ok ((cs.reverse ++ (spaces ++ text)).reverse, ⟨'\n' :: rest, q⟩) := by
  induction cs generalizing text spaces p with
  | nil =>
    refine ⟨p.next '"', ?_⟩
    rw [List.flatMap_nil, List.nil_append, readDouble, if_neg (by decide), if_neg (by decide),
      if_neg (by decide), if_neg (by omega), if_pos rfl, Gap.text_ofSpaces]
    rfl
  | cons c cs ih =>
    obtain ⟨q, text', spaces', inside', same, step⟩ := readDouble_char c text spaces
      (cs.flatMap doubleQuotedChar ++ '"' :: '\n' :: rest) inside
    obtain ⟨r, read⟩ := ih text' spaces' inside'
    refine ⟨r, ?_⟩
    rw [List.flatMap_cons, List.append_assoc, step, read, same]
    simp

theorem read_doubleQuoted (cs rest : List Char) (p : Position) :
    ∃ q, read true ⟨'"' :: cs.flatMap doubleQuotedChar ++ '"' :: '\n' :: rest, p⟩ =
      .ok (cs, ⟨'\n' :: rest, q⟩) := by
  obtain ⟨q, read⟩ := readDouble_append cs [] [] rest (p := p.next '"') (Nat.succ_pos _)
  refine ⟨q, Eq.trans rfl (read.trans ?_)⟩
  simp

end Quoted

end Yaml

end SpectrumViewer
