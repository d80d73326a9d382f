import SpectrumViewer.Proofs.Number.Numeral

set_option autoImplicit false

/-!
The grammar of decimal numerals: an optional sign, digits with at most one point, and an optional
power of ten. Reading accepts exactly the texts of the grammar, and as the numbers that they write
(`Decimal.parse?_eq_some_iff`).
-/

namespace SpectrumViewer

namespace Decimal

def AllDigits (cs : List Char) : Prop := ∀ c ∈ cs, c.isDigit = true

def number (digits : List Char) : Nat := Nat.ofDigitChars 10 digits 0

/-- What may stand in front of a number; true for a minus. -/
inductive SignText : List Char → Bool → Prop where
  | absent : SignText [] false
  | plus : SignText ['+'] false
  | minus : SignText ['-'] true

/-- Digits and at most one point, with the number that all the digits write and how many of them
are behind the point. -/
inductive DigitsText : List Char → Nat → Nat → Prop where
  | whole {digits : List Char} : AllDigits digits → digits ≠ [] →
      DigitsText digits (number digits) 0
  | point {front behind : List Char} : AllDigits (front ++ behind) → front ++ behind ≠ [] →
      DigitsText (front ++ '.' :: behind) (number (front ++ behind)) behind.length

/-- The exponent of a power of ten. -/
inductive ScaleText : List Char → Int → Prop where
  | absent : ScaleText [] 0
  | power {letter : Char} {sign digits : List Char} {negative : Bool} :
      letter = 'e' ∨ letter = 'E' → SignText sign negative → AllDigits digits → digits ≠ [] →
      ScaleText (letter :: (sign ++ digits)) (Binary32.signed negative (number digits))

/-- The numerals, with what they write. -/
inductive Written : List Char → Decimal → Prop where
  | intro {sign digits scale : List Char} {negative : Bool} {significand places : Nat}
      {exponent : Int} :
      SignText sign negative → DigitsText digits significand places → ScaleText scale exponent →
      Written (sign ++ (digits ++ scale)) ⟨negative, significand, exponent - places⟩

theorem isDigit_ne {c other : Char} (digit : c.isDigit = true) (h : other.isDigit = false) :
    c ≠ other := by
  rintro rfl
  rw [digit] at h
  cases h

theorem exists_signText (cs : List Char) :
    ∃ sign, SignText sign (splitSign cs).1 ∧ cs = sign ++ (splitSign cs).2 := by
  unfold splitSign
  split
  · exact ⟨_, .plus, rfl⟩
  · exact ⟨_, .minus, rfl⟩
  · exact ⟨_, .absent, rfl⟩

theorem splitSign_append {sign rest : List Char} {negative : Bool} (h : SignText sign negative)
    (unsigned : ∀ c ∈ rest.head?, c ≠ '+' ∧ c ≠ '-') :
    splitSign (sign ++ rest) = (negative, rest) := by
  cases h with
  | plus => rfl
  | minus => rfl
  | absent =>
    cases rest with
    | nil => rfl
    | cons c rest =>
      obtain ⟨plus, minus⟩ := unsigned c rfl
      exact splitSign_of_ne rest plus minus

theorem AllDigits.unsigned {cs : List Char} (digits : AllDigits cs) :
    ∀ c ∈ cs.head?, c ≠ '+' ∧ c ≠ '-' := by
  intro c first
  have digit := digits c (List.mem_of_mem_head? first)
  exact ⟨isDigit_ne digit rfl, isDigit_ne digit rfl⟩

theorem scaleText_of_parseScale? {cs : List Char} {exponent : Int}
    (h : parseScale? cs = some exponent) : ScaleText cs exponent := by
  cases cs with
  | nil =>
    cases h
    exact .absent
  | cons letter cs =>
    obtain ⟨sign, signed, split⟩ := exists_signText cs
    dsimp only [parseScale?] at h
    by_cases shape : (letter = 'e' ∨ letter = 'E') ∧ (splitSign cs).2 ≠ [] ∧
        (splitSign cs).2.all Char.isDigit = true
    · rw [if_pos shape] at h
      obtain ⟨isLetter, nonempty, digits⟩ := shape
      have power := ScaleText.power isLetter signed (List.all_eq_true.mp digits) nonempty
      rw [← split] at power
      exact Option.some.inj h ▸ power
    · rw [if_neg shape] at h
      cases h

theorem parseScale?_eq_some {cs : List Char} {exponent : Int} (h : ScaleText cs exponent) :
    parseScale? cs = some exponent := by
  cases h with
  | absent => rfl
  | power isLetter signed digits nonempty =>
    rw [parseScale?, splitSign_append signed digits.unsigned]
    exact if_pos ⟨isLetter, nonempty, List.all_eq_true.mpr digits⟩

theorem ScaleText.head_ne {cs : List Char} {exponent : Int} (h : ScaleText cs exponent) :
    ∀ c ∈ cs.head?, c.isDigit = false ∧ c ≠ '.' := by
  cases h with
  | absent => intro c first; cases first
  | power isLetter _ _ _ =>
    intro c first
    cases first
    rcases isLetter with rfl | rfl <;> decide

theorem takeWhile_isDigit_append {digits rest : List Char} (h : AllDigits digits)
    (ends : ∀ c ∈ rest.head?, c.isDigit = false) :
    (digits ++ rest).takeWhile Char.isDigit = digits ∧
      (digits ++ rest).dropWhile Char.isDigit = rest := by
  rw [List.takeWhile_append_of_pos h, List.dropWhile_append_of_pos h]
  cases rest with
  | nil => exact ⟨List.append_nil digits, rfl⟩
  | cons c rest =>
    have none : c.isDigit = false := ends c rfl
    constructor
    · rw [List.takeWhile_cons_of_neg (by simp [none]), List.append_nil]
    · rw [List.dropWhile_cons_of_neg (by simp [none])]

theorem splitFraction_of_ne {rest : List Char} (h : ∀ c ∈ rest.head?, c ≠ '.') :
    splitFraction rest = ([], rest) := by
  unfold splitFraction
  split
  · exact absurd rfl (h '.' rfl)
  · rfl

theorem exists_digitsText (cs : List Char) :
    let whole := cs.takeWhile Char.isDigit
    let split := splitFraction (cs.dropWhile Char.isDigit)
    whole ++ split.1 ≠ [] → ∃ digits,
      DigitsText digits (number (whole ++ split.1)) split.1.length ∧ cs = digits ++ split.2 := by
  intro whole split nonempty
  have front : AllDigits whole := fun c inside => List.mem_takeWhile_imp inside
  have parts : cs = whole ++ cs.dropWhile Char.isDigit := (List.takeWhile_append_dropWhile).symm
  by_cases point : ∃ rest, cs.dropWhile Char.isDigit = '.' :: rest
  · obtain ⟨rest, behind⟩ := point
    have same : split = (rest.takeWhile Char.isDigit, rest.dropWhile Char.isDigit) := by
      rw [show split = splitFraction _ from rfl, behind]
      rfl
    rw [same] at nonempty ⊢
    have behindDigits : AllDigits (rest.takeWhile Char.isDigit) :=
      fun c inside => List.mem_takeWhile_imp inside
    refine ⟨_, .point (List.forall_mem_append.mpr ⟨front, behindDigits⟩) nonempty, ?_⟩
    rw [List.append_assoc, List.cons_append, List.takeWhile_append_dropWhile, ← behind]
    exact parts
  · have same : split = ([], cs.dropWhile Char.isDigit) := by
      apply splitFraction_of_ne
      intro c first isPoint
      obtain ⟨rest, behind⟩ := List.head?_eq_some_iff.mp first
      exact point ⟨rest, isPoint ▸ behind⟩
    rw [same, List.append_nil] at nonempty
    rw [same, List.append_nil]
    exact ⟨whole, .whole front nonempty, parts⟩

theorem parse?_of_written {cs : List Char} {d : Decimal} (h : Written cs d) :
    parse? cs = some d := by
  obtain @⟨sign, digits, scale, negative, significand, places, exponent, signed, mantissa,
    power⟩ := h
  have scaled := parseScale?_eq_some power
  cases mantissa with
  | whole digits' nonempty =>
    have unsigned : ∀ c ∈ (digits ++ scale).head?, c ≠ '+' ∧ c ≠ '-' := by
      rw [List.head?_append_of_ne_nil _ nonempty]
      exact digits'.unsigned
    obtain ⟨taken, left⟩ :=
      takeWhile_isDigit_append digits' fun c first => (power.head_ne c first).1
    have fraction := splitFraction_of_ne fun c first => (power.head_ne c first).2
    simp only [parse?, splitSign_append signed unsigned, taken, left, fraction, List.append_nil,
      if_neg nonempty, scaled]
    rfl
  | @point front behind digits' nonempty =>
    obtain ⟨frontDigits, behindDigits⟩ := List.forall_mem_append.mp digits'
    rw [List.append_assoc, List.cons_append]
    have unsigned : ∀ c ∈ (front ++ '.' :: (behind ++ scale)).head?, c ≠ '+' ∧ c ≠ '-' := by
      cases front with
      | nil =>
        intro c first
        cases first
        decide
      | cons digit front =>
        have digits : AllDigits (digit :: front) := frontDigits
        exact digits.unsigned
    have point : ∀ c ∈ ('.' :: (behind ++ scale)).head?, c.isDigit = false := by
      intro c first
      cases first
      rfl
    obtain ⟨taken, left⟩ := takeWhile_isDigit_append frontDigits point
    obtain ⟨takenBehind, leftBehind⟩ :=
      takeWhile_isDigit_append behindDigits fun c first => (power.head_ne c first).1
    have fraction : splitFraction ('.' :: (behind ++ scale)) = (behind, scale) := by
      rw [splitFraction, takenBehind, leftBehind]
    simp only [parse?, splitSign_append signed unsigned, taken, left, fraction, if_neg nonempty,
      scaled]
    rfl

theorem written_of_parse? {cs : List Char} {d : Decimal} (h : parse? cs = some d) :
    Written cs d := by
  obtain ⟨sign, signed, split⟩ := exists_signText cs
  have mantissa := exists_digitsText (splitSign cs).2
  dsimp only [parse?] at h mantissa
  split at h
  · cases h
  · next nonempty =>
    obtain ⟨digits, digitsText, rest⟩ := mantissa nonempty
    obtain ⟨exponent, scaled, rfl⟩ := Option.map_eq_some_iff.mp h
    have written := Written.intro signed digitsText (scaleText_of_parseScale? scaled)
    rwa [← rest, ← split] at written

/-- Reading accepts exactly the texts of the grammar. -/
theorem parse?_eq_some_iff {cs : List Char} {d : Decimal} : parse? cs = some d ↔ Written cs d :=
  ⟨written_of_parse?, parse?_of_written⟩

end Decimal

end SpectrumViewer
