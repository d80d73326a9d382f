import SpectrumViewer.Proofs.Yaml.Line

set_option autoImplicit false

/-!
Plain scalars on one line. A text that starts and goes on like a word is read up to the end of its
line, with all the spaces inside of it (`read_line`), and what may be printed plain is such a text
(`holds_of_isPlain`).
-/

namespace SpectrumViewer

namespace Yaml

namespace Plain

/-- What may stand behind a part of a plain scalar that ends in a space, or in none. -/
inductive Tail : Bool → List Char → Prop where
  | nil : Tail false []
  | space {blank : Bool} {cs : List Char} : Tail true cs → Tail blank (' ' :: cs)
  | word {blank : Bool} {c : Char} {cs : List Char} : isSpaceOrBreak c = false →
      (blank = true → c ≠ '#') → (c = ':' → endsWord cs = false) → Tail false cs →
      Tail blank (c :: cs)

variable {indent : Nat} {rest : List Char}

theorem endsWord_append {cs : List Char} (h : endsWord cs = false) (rest : List Char) :
    endsWord (cs ++ rest) = false := by
  cases cs with
  | nil => cases h
  | cons c cs => exact h

theorem isSpace_of_not {c : Char} (h : isSpaceOrBreak c = false) :
    isSpace c = false ∧ isBreak c = false :=
  Bool.or_eq_false_iff.mp h

theorem readOn_append {blank : Bool} {cs : List Char} (tail : Tail blank cs)
    (spaces : List Char) (gap : spaces.isEmpty = !blank) (text : List Char) {p : Position}
    (inside : indent < p.column) :
    readOn ⟨false, indent + 1⟩ text (.ofSpaces spaces) p (cs ++ '\n' :: rest) =
      readOn ⟨false, indent + 1⟩ (cs.reverse ++ (spaces ++ text)) .none (p.over cs)
        ('\n' :: rest) := by
  induction tail generalizing spaces text p with
  | nil =>
    obtain rfl := List.isEmpty_iff.mp gap
    rfl
  | @space blank cs _ ih =>
    have next : (p.next ' ').column = p.column + 1 := rfl
    have step := ih (' ' :: spaces) rfl text (p := p.next ' ') (by omega)
    rw [List.cons_append, readOn, if_pos (show isSpace ' ' = true from rfl), if_neg (by simp),
      Gap.addSpace_ofSpaces, step]
    simp [Position.over_cons]
  | @word blank c cs solid comment colon _ ih =>
    obtain ⟨noSpace, noBreak⟩ := isSpace_of_not solid
    have next : (p.next c).column = p.column + 1 := by rw [Position.next_of_not_break noBreak]
    have goesOn : ¬(Gap.ofSpaces spaces ≠ .none ∧
        endsAfterGap ⟨false, indent + 1⟩ p.column c (cs ++ '\n' :: rest) = true) := by
      rintro ⟨gapped, ends⟩
      have behindSpace : blank = true := by simpa [Gap.ofSpaces_eq_none, gap] using gapped
      have notZero : p.column ≠ 0 := by omega
      simp [endsAfterGap, comment behindSpace, notZero] at ends
      omega
    have notOver : endsBefore false c (cs ++ '\n' :: rest) = false := by
      rw [endsBefore, Bool.false_and, Bool.or_false]
      by_cases same : c = ':'
      · rw [endsWord_append (colon same), Bool.and_false]
      · rw [decide_eq_false same, Bool.false_and]
    have step := ih [] rfl (c :: (spaces ++ text)) (p := p.next c) (by omega)
    rw [List.cons_append, readOn, noSpace, noBreak, notOver]
    simp only [Bool.false_eq_true, if_false, goesOn, false_and]
    rw [Gap.text_ofSpaces]
    refine Eq.trans step ?_
    simp [Position.over_cons]

theorem readOn_indentation (text : List Char) (first : Char) (more : List Char) (depth : Nat)
    (p : Position) :
    readOn ⟨false, indent + 1⟩ text (.breaks first more) p (Scalar.indentation depth ++ rest) =
      readOn ⟨false, indent + 1⟩ text (.breaks first more)
        (p.over (Scalar.indentation depth)) rest := by
  induction depth generalizing p with
  | zero => rfl
  | succ depth ih =>
    rw [indentation_succ, readOn, if_pos (show isSpace ' ' = true from rfl), if_neg (by simp)]
    exact ih (p.next ' ')

/-- A plain scalar ends with its line where another entry or nothing follows. -/
theorem readOn_break (follows : Follows indent rest) (text : List Char) (p : Position) :
    readOn ⟨false, indent + 1⟩ text .none p ('\n' :: rest) =
      .ok ⟨text.reverse, settle (p.next '\n') rest, true⟩ := by
  have step : readOn ⟨false, indent + 1⟩ text .none p ('\n' :: rest) =
      readOn ⟨false, indent + 1⟩ text (.breaks '\n' []) (p.next '\n') rest := by
    rw [readOn]
    rfl
  rw [step]
  cases follows with
  | nothing => rfl
  | @entry depth c rest shallow alpha =>
    have column : ((p.next '\n').over (Scalar.indentation depth)).column = depth := by
      rw [Position.column_over_indentation, Position.column_next_of_break rfl, Nat.zero_add]
    have ends : endsAfterGap ⟨false, indent + 1⟩
        ((p.next '\n').over (Scalar.indentation depth)).column c rest = true := by
      have outside : (depth : Int) < indent + 1 := by omega
      rw [column]
      simp [endsAfterGap, outside]
    rw [readOn_indentation, settle_entry alpha, readOn, isSpace_of_isAlpha alpha,
      isBreak_of_isAlpha alpha, ends]
    rfl

/-- A text that is read as a plain scalar. -/
structure Holds (cs : List Char) : Prop where
  starts : ∃ c rest, cs = c :: rest ∧ c ≠ ' ' ∧ Scalar.leadIndicators.contains c = false ∧
    (c = '-' ∨ c = '?' → endsWord rest = false)
  tail : Tail false cs

theorem Holds.first {cs : List Char} (holds : Holds cs) :
    ∃ c rest, cs = c :: rest ∧ isSpaceOrBreak c = false ∧
      Scalar.leadIndicators.contains c = false ∧
      (c = '-' ∨ c = '?' ∨ c = ':' → endsWord rest = false) := by
  obtain ⟨c, rest, rfl, visible, lead, mark⟩ := holds.starts
  cases holds.tail with
  | space _ => exact absurd rfl visible
  | word solid _ colon _ =>
    refine ⟨c, rest, rfl, solid, lead, ?_⟩
    rintro (hyphen | question | same)
    · exact mark (.inl hyphen)
    · exact mark (.inr question)
    · exact colon same

theorem read_line {cs : List Char} (tail : Tail false cs) (follows : Follows indent rest)
    {p : Position} (inside : indent < p.column) :
    ∃ q : Position, q.column = 0 ∧
      read ⟨false, indent + 1⟩ ⟨cs ++ '\n' :: rest, p⟩ = .ok ⟨cs, settle q rest, true⟩ := by
  refine ⟨(p.over cs).next '\n', Position.column_next_of_break rfl _, ?_⟩
  rw [read]
  refine (readOn_append tail [] rfl [] inside).trans ?_
  rw [readOn_break follows]
  simp

theorem tail_of_word {blank : Bool} {cs : List Char} (nonempty : cs = [] → blank = false)
    (word : ∀ c ∈ cs, isWord c = true ∨ c = '.') : Tail blank cs := by
  induction cs generalizing blank with
  | nil =>
    rw [nonempty rfl]
    exact .nil
  | cons c cs ih =>
    obtain ⟨here, later⟩ := List.forall_mem_cons.mp word
    have other (d : Char) (h : isWord d = false) (point : d ≠ '.') : c ≠ d := by
      rcases here with word | rfl
      · exact ne_of_isWord word d h
      · exact point.symm
    have solid : isSpaceOrBreak c = false := by
      rcases here with word | rfl
      · exact isSpaceOrBreak_of_isWord word
      · rfl
    exact .word solid (fun _ => other '#' rfl (by decide))
      (fun colon => absurd colon (other ':' rfl (by decide))) (ih (fun _ => rfl) later)

theorem holds_of_word {c : Char} {cs : List Char} (first : isWord c = true)
    (hyphen : c = '-' → cs ≠ []) (word : ∀ d ∈ cs, isWord d = true ∨ d = '.') :
    Holds (c :: cs) := by
  have noLead : Scalar.leadIndicators.any isWord = false := by decide
  refine ⟨⟨c, cs, rfl, ne_of_isWord first ' ' rfl, ?_, ?_⟩, ?_⟩
  · refine Bool.eq_false_iff.mpr fun among => ?_
    exact List.any_eq_false.mp noLead c (List.contains_iff_mem.mp among) first
  · rintro (rfl | rfl)
    · obtain ⟨d, rest, rfl⟩ := List.exists_cons_of_ne_nil (hyphen rfl)
      rcases word d List.mem_cons_self with word | rfl
      · exact isSpaceOrBreak_of_isWord word
      · rfl
    · cases first
  · exact tail_of_word (fun _ => rfl) (List.forall_mem_cons.mpr ⟨.inl first, word⟩)

open Scalar

theorem tail_of_hasNeighbours {blank : Bool} {cs : List Char} (nonempty : cs = [] → blank = false)
    (line : ∀ c ∈ cs, isBreak c = false ∧ c ≠ '\t') (last : cs.getLast? ≠ some ' ')
    (lastColon : cs.getLast? ≠ some ':')
    (colon : hasNeighbours (· = ':') isSpaceOrBreak cs = false)
    (comment : hasNeighbours isSpaceOrBreak (· = '#') cs = false)
    (first : blank = true → cs.head? ≠ some '#') : Tail blank cs := by
  induction cs generalizing blank with
  | nil =>
    rw [nonempty rfl]
    exact .nil
  | cons c cs ih =>
    obtain ⟨⟨noBreak, noTab⟩, laterLine⟩ := List.forall_mem_cons.mp line
    have solid (other : c ≠ ' ') : isSpaceOrBreak c = false := by
      simp [isSpaceOrBreak, isSpace, noBreak, noTab, other]
    cases cs with
    | nil =>
      have other : c ≠ ' ' := fun same => last (congrArg some same)
      refine .word (solid other) (fun blank same => first blank (congrArg some same)) ?_ .nil
      exact fun same => absurd (congrArg some same) lastColon
    | cons d cs =>
      rw [List.getLast?_cons_cons] at last lastColon
      obtain ⟨colonHere, colonLater⟩ := Bool.or_eq_false_iff.mp colon
      obtain ⟨commentHere, commentLater⟩ := Bool.or_eq_false_iff.mp comment
      have later {behind : Bool} (h : behind = true → d ≠ '#') : Tail behind (d :: cs) :=
        ih (fun empty => by cases empty) laterLine last lastColon colonLater commentLater
          (by simpa using h)
      by_cases space : c = ' '
      · subst space
        refine .space (later fun _ same => ?_)
        simp [same] at commentHere
        cases commentHere
      · refine .word (solid space) (fun blank same => first blank (congrArg some same)) ?_
          (later fun h => by cases h)
        rintro rfl
        have solidNext : isSpaceOrBreak d = false := by simpa using colonHere
        exact solidNext

theorem lead_of_startsWithIndicator {c : Char} {cs : List Char}
    (h : startsWithIndicator (c :: cs) = false) :
    leadIndicators.contains c = false ∧ (c = '-' ∨ c = '?' → endsWord cs = false) := by
  unfold startsWithIndicator at h
  split at h
  · cases h
  · cases h
  · next same =>
    cases same
    obtain ⟨lead, word⟩ := Bool.or_eq_false_iff.mp h
    refine ⟨lead, fun mark => ?_⟩
    have marked : (decide (c = '?') || decide (c = '-')) = true := by
      simpa [or_comm] using mark
    rwa [marked, Bool.true_and] at word
  · next same => cases same

/-- What is printed plain is read plain, and does not stand for nothing. -/
theorem holds_of_isPlain {cs : List Char} (printable : ∀ c ∈ cs, isPrintable c = true)
    (plain : isPlain cs = true) : Holds cs ∧ Literal.isNull cs = false := by
  simp only [isPlain, Bool.and_eq_true, Bool.not_eq_true', decide_eq_true_eq] at plain
  obtain ⟨⟨⟨⟨⟨unambiguous, oneLine⟩, first⟩, last⟩, lead⟩, inside⟩ := plain
  have notNull : Literal.isNull cs = false := by
    simp only [Literal.isAmbiguous, Bool.or_eq_false_iff] at unambiguous
    exact unambiguous.1.1.1.1
  refine ⟨⟨?_, ?_⟩, notNull⟩
  · cases cs with
    | nil => cases notNull
    | cons c rest =>
      have visible : c ≠ ' ' := fun same => first (congrArg some same)
      exact ⟨c, rest, rfl, visible, lead_of_startsWithIndicator lead⟩
  · simp only [hasIndicator, Bool.or_eq_false_iff, decide_eq_false_iff_not] at inside
    obtain ⟨⟨lastColon, colon⟩, comment⟩ := inside
    refine tail_of_hasNeighbours (fun _ => rfl) (fun c among => ⟨?_, ?_⟩) last lastColon colon
      comment (fun h => by cases h)
    · exact Bool.eq_false_iff.mpr (List.any_eq_false.mp oneLine c among)
    · rintro rfl
      exact absurd (printable _ among) (by decide)

end Plain

end Yaml

end SpectrumViewer
