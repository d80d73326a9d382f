import SpectrumViewer.Spectrum.Chart

set_option autoImplicit false

/-!
A text is legible if it holds neither of the words for what is not a finite number. A number with
decimal places in a text without such words is legible exactly if it is finite
(`legible_append_fixed_iff`).
-/

namespace SpectrumViewer

namespace Label

/-- Neither the word for an infinity nor that for what is not a number occurs in the text. -/
def Legible (text : String) : Prop :=
  ¬"inf".toList <:+: text.toList ∧ ¬"NaN".toList <:+: text.toList

/-- Each of the two words has a letter that these characters are not. -/
def IsPlain (cs : List Char) : Prop := 'f' ∉ cs ∧ 'N' ∉ cs

instance (cs : List Char) : Decidable (IsPlain cs) := inferInstanceAs (Decidable (_ ∧ _))

variable {front behind : List Char}

theorem IsPlain.append (hf : IsPlain front) (hb : IsPlain behind) : IsPlain (front ++ behind) :=
  ⟨fun among => (List.mem_append.mp among).elim hf.1 hb.1,
    fun among => (List.mem_append.mp among).elim hf.2 hb.2⟩

theorem isPlain_of_digits {cs : List Char} (digits : ∀ c ∈ cs, c.isDigit = true ∨ c = '.') :
    IsPlain cs := by
  have strange {letter : Char} (other : ¬(letter.isDigit = true ∨ letter = '.')) : letter ∉ cs :=
    fun among => other (digits letter among)
  exact ⟨strange (by decide), strange (by decide)⟩

theorem IsPlain.legible {text : String} (h : IsPlain text.toList) : Legible text :=
  ⟨fun word => h.1 (word.subset (by decide)), fun word => h.2 (word.subset (by decide))⟩

theorem isDigit_of_mem_placed {places n : Nat} {c : Char} (h : c ∈ FixedPlaces.placed places n) :
    c.isDigit = true ∨ c = '.' := by
  have digit {d : Char} (among : d ∈ List.replicate (places + 1 - (Nat.toDigits 10 n).length) '0' ++
      Nat.toDigits 10 n) : d.isDigit = true := by
    rcases List.mem_append.mp among with zero | among
    · rw [List.eq_of_mem_replicate zero]
      rfl
    · exact Nat.isDigit_of_mem_toDigits (by decide) (by decide) among
  rw [FixedPlaces.placed] at h
  split at h
  · exact Or.inl (digit h)
  · rcases List.mem_append.mp h with before | behind
    · exact Or.inl (digit (List.mem_of_mem_take before))
    · rcases List.mem_cons.mp behind with point | behind
      · exact Or.inr point
      · exact Or.inl (digit (List.mem_of_mem_drop behind))

theorem isPlain_text (places : Nat) {x : Binary32} (finite : x.isFinite = true) :
    IsPlain (FixedPlaces.text places x) := by
  cases x with
  | nan => cases finite
  | infinite s => cases finite
  | finite s code =>
    refine IsPlain.append ?_ (isPlain_of_digits fun c => isDigit_of_mem_placed)
    cases s <;> decide

theorem not_legible_text (places : Nat) {x : Binary32} (infinite : x.isFinite ≠ true)
    {text : String} (within : FixedPlaces.text places x <:+: text.toList) : ¬Legible text := by
  rintro ⟨noInfinity, noNumber⟩
  cases x with
  | nan => exact noNumber within
  | infinite s =>
    refine noInfinity (List.IsInfix.trans ?_ within)
    exact (List.suffix_append _ _).isInfix
  | finite s code => exact infinite rfl

theorem legible_append_fixed_iff {front behind : String} (plainF : IsPlain front.toList)
    (plainB : IsPlain behind.toList) (places : Nat) (x : Binary32) :
    Legible (front ++ x.fixed places ++ behind) ↔ x.isFinite = true := by
  have text : (front ++ x.fixed places ++ behind).toList =
      front.toList ++ FixedPlaces.text places x ++ behind.toList := by
    simp [Binary32.fixed]
  constructor
  · intro legible
    refine Decidable.byContradiction fun infinite => ?_
    exact not_legible_text places infinite (text ▸ List.infix_append _ _ _) legible
  · intro finite
    apply IsPlain.legible
    rw [text]
    exact (plainF.append (isPlain_text places finite)).append plainB

theorem legible_append_fixed_end_iff {front : String} (plain : IsPlain front.toList)
    (places : Nat) (x : Binary32) : Legible (front ++ x.fixed places) ↔ x.isFinite = true := by
  have nothing : IsPlain "".toList := by decide
  simpa using legible_append_fixed_iff plain nothing places x

theorem legible_magnitude_iff {x top : Binary32} :
    Legible (magnitude x top) ↔ x.isFinite = true := by
  have nothing : IsPlain "".toList := by decide
  simpa [magnitude] using legible_append_fixed_end_iff nothing (places top) x

theorem legible_append_frequency_iff {front : String} (plain : IsPlain front.toList)
    (x : Binary32) : Legible (front ++ frequency x) ↔ x.isFinite = true := by
  have unit : IsPlain " Hz".toList := by decide
  rw [frequency, ← String.append_assoc]
  exact legible_append_fixed_iff plain unit 0 x

theorem legible_frequency_iff {x : Binary32} : Legible (frequency x) ↔ x.isFinite = true := by
  have nothing : IsPlain "".toList := by decide
  simpa using legible_append_frequency_iff nothing x

theorem legible_append_repr {front : String} (plain : IsPlain front.toList) (n : Nat) :
    Legible (front ++ n.repr) := by
  apply IsPlain.legible
  rw [String.toList_append, Nat.toList_repr]
  apply plain.append
  apply isPlain_of_digits
  exact fun c among => Or.inl (Nat.isDigit_of_mem_toDigits (by decide) (by decide) among)

end Label

namespace Chart

/-- All lines are legible if the three numbers that are not counts are finite. -/
theorem legible_infoLines_iff {values : List Binary32} {sampleRate : Binary32} {fftSize : Nat} :
    (∀ line ∈ infoLines values sampleRate fftSize, Label.Legible line) ↔
      (Spectrum.binWidth sampleRate fftSize).isFinite = true ∧
        (Spectrum.loudest values).isFinite = true ∧
        (Spectrum.binFrequency (Spectrum.peakBin values) sampleRate fftSize).isFinite = true := by
  simp only [infoLines, List.mem_cons, List.not_mem_nil, or_false, forall_eq_or_imp, forall_eq]
  have size : Label.Legible ("FFT Size: " ++ fftSize.repr) :=
    Label.legible_append_repr (by decide) fftSize
  have width : Label.Legible ("Freq Resolution: " ++
      (Spectrum.binWidth sampleRate fftSize).fixed 2 ++ " Hz/bin") ↔ _ :=
    Label.legible_append_fixed_iff (by decide) (by decide) 2 _
  have top : Label.Legible ("Max Magnitude: " ++ (Spectrum.loudest values).fixed 4) ↔ _ :=
    Label.legible_append_fixed_end_iff (by decide) 4 _
  have peak : Label.Legible ("Peak: " ++ Label.frequency
      (Spectrum.binFrequency (Spectrum.peakBin values) sampleRate fftSize)) ↔ _ :=
    Label.legible_append_frequency_iff (by decide) _
  exact (and_iff_right size).trans (and_congr width (and_congr top peak))

end Chart

end SpectrumViewer
