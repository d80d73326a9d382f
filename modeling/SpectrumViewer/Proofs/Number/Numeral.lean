import SpectrumViewer.Number.Decimal
import SpectrumViewer.Proofs.Text.Pieces

set_option autoImplicit false

/-!
The characters of decimal numerals. A numeral is made of digits, signs, a point and the letter of
its power of ten, so it holds neither blanks nor commas (`isNumeral_of_parse?`), and digits with a
point among them are read as the quotient that they write (`parse?_point`).
-/

namespace SpectrumViewer

namespace Decimal

/-- A character that can stand in a numeral. -/
def IsNumeral (c : Char) : Prop := c.isDigit = true ∨ c ∈ ['+', '-', '.', 'e', 'E']

theorem isNumeral_of_mem_splitSign {cs : List Char}
    (rest : ∀ c ∈ (splitSign cs).2, IsNumeral c) : ∀ c ∈ cs, IsNumeral c := by
  unfold splitSign at rest
  split at rest
  · exact List.forall_mem_cons.mpr ⟨Or.inr (by decide), rest⟩
  · exact List.forall_mem_cons.mpr ⟨Or.inr (by decide), rest⟩
  · exact rest

theorem isNumeral_of_mem_takeWhile {cs : List Char} :
    ∀ c ∈ cs.takeWhile Char.isDigit, IsNumeral c :=
  fun _ digit => Or.inl (List.mem_takeWhile_imp digit)

theorem isNumeral_of_mem_dropWhile {cs : List Char}
    (rest : ∀ c ∈ cs.dropWhile Char.isDigit, IsNumeral c) : ∀ c ∈ cs, IsNumeral c := by
  rw [← List.takeWhile_append_dropWhile (p := Char.isDigit) (l := cs)]
  exact List.forall_mem_append.mpr ⟨isNumeral_of_mem_takeWhile, rest⟩

theorem isNumeral_of_mem_splitFraction {cs : List Char}
    (rest : ∀ c ∈ (splitFraction cs).2, IsNumeral c) : ∀ c ∈ cs, IsNumeral c := by
  unfold splitFraction at rest
  split at rest
  · exact List.forall_mem_cons.mpr ⟨Or.inr (by decide), isNumeral_of_mem_dropWhile rest⟩
  · exact rest

theorem isNumeral_of_parseScale? {cs : List Char} (h : parseScale? cs ≠ none) :
    ∀ c ∈ cs, IsNumeral c := by
  cases cs with
  | nil => exact List.forall_mem_nil _
  | cons c cs =>
    rw [parseScale?] at h
    have shape := Decidable.not_not.mp fun wrong => h (if_neg wrong)
    refine List.forall_mem_cons.mpr ⟨Or.inr ?_, isNumeral_of_mem_splitSign ?_⟩
    · rcases shape.1 with rfl | rfl <;> decide
    · exact fun digit membership => Or.inl (List.all_eq_true.mp shape.2.2 digit membership)

theorem isNumeral_of_parse? {cs : List Char} (h : parse? cs ≠ none) : ∀ c ∈ cs, IsNumeral c := by
  dsimp only [parse?] at h
  apply isNumeral_of_mem_splitSign
  apply isNumeral_of_mem_dropWhile
  apply isNumeral_of_mem_splitFraction
  apply isNumeral_of_parseScale?
  intro noScale
  rw [noScale] at h
  exact h (ite_self none)

theorem ne_nil_of_parse? {cs : List Char} (h : parse? cs ≠ none) : cs ≠ [] := by
  rintro rfl
  exact h rfl

theorem IsNumeral.ne_comma {c : Char} (h : IsNumeral c) : c ≠ ',' := by
  rintro rfl
  revert h
  unfold IsNumeral
  decide

theorem IsNumeral.not_blank {c : Char} (h : IsNumeral c) : Text.isBlank c = false := by
  rcases h with digit | sign
  · exact Text.isBlank_of_isDigit digit
  · simp only [List.mem_cons, List.not_mem_nil, or_false] at sign
    rcases sign with rfl | rfl | rfl | rfl | rfl <;> decide

theorem splitSign_of_ne {c : Char} (cs : List Char) (plus : c ≠ '+') (minus : c ≠ '-') :
    splitSign (c :: cs) = (false, c :: cs) := by
  rw [splitSign]
  · rintro rest same
    exact plus (List.head_eq_of_cons_eq same)
  · rintro rest same
    exact minus (List.head_eq_of_cons_eq same)

/-- A numeral with a point is read as all its digits, scaled down by the number of those behind
the point. -/
theorem parse?_point {whole fraction : List Char}
    (digits : ∀ c ∈ whole ++ fraction, c.isDigit = true) (nonempty : whole ++ fraction ≠ []) :
    parse? (whole ++ '.' :: fraction) =
      some ⟨false, digitsValue (whole ++ fraction), -fraction.length⟩ := by
  obtain ⟨before, behind⟩ := List.forall_mem_append.mp digits
  have unsigned : splitSign (whole ++ '.' :: fraction) = (false, whole ++ '.' :: fraction) := by
    cases whole with
    | nil => rfl
    | cons c rest =>
      have digit := before c List.mem_cons_self
      apply splitSign_of_ne
      · rintro rfl
        cases digit
      · rintro rfl
        cases digit
  have wholePart : (whole ++ '.' :: fraction).takeWhile Char.isDigit = whole := by
    rw [List.takeWhile_append_of_pos before]
    exact List.append_nil whole
  have pointPart : (whole ++ '.' :: fraction).dropWhile Char.isDigit = '.' :: fraction := by
    rw [List.dropWhile_append_of_pos before]
    rfl
  have fractionPart : splitFraction ('.' :: fraction) = (fraction, []) := by
    rw [splitFraction, List.takeWhile_eq_self_iff.mpr behind, List.dropWhile_eq_nil_iff.mpr behind]
  simp only [parse?, unsigned, wholePart, pointPart, fractionPart, if_neg nonempty]
  simp [parseScale?]

end Decimal

end SpectrumViewer
