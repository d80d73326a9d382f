import SpectrumViewer.Proofs.Frame.Enclosure
import SpectrumViewer.Proofs.Frame.Payload

set_option autoImplicit false

/-!
Which settings can receive frames. Marks are looked for in lines without the blanks around them, so
a mark with a blank at one of its ends is never found. Settings are accepted with such marks, but
they receive every frame that is sent under them exactly if there are none (`receives_iff`).
-/

namespace SpectrumViewer

theorem Payload.magnitude?_zeros {whole : List Char} (h : whole = [] ∨ whole = ['0']) (more : Nat) :
    magnitude? (whole ++ '.' :: List.replicate (more + 1) '0') = some 0 := by
  obtain ⟨places, same⟩ :
      ∃ places, whole ++ List.replicate (more + 1) '0' = List.replicate (places + 1) '0' := by
    rcases h with rfl | rfl
    · exact ⟨more, rfl⟩
    · exact ⟨more + 1, rfl⟩
  have digits : ∀ c ∈ List.replicate (places + 1) '0', Char.isDigit c = true := by
    intro c among
    rw [List.eq_of_mem_replicate among]
    rfl
  have value : Decimal.digitsValue (List.replicate (places + 1) '0') = 0 :=
    Nat.ofDigitChars_replicate_zero
  have read (exponent : Int) : Decimal.toBinary32 ⟨false, 0, exponent⟩ = 0 := by
    rw [Decimal.toBinary32, Decimal.code, if_pos rfl]
    rfl
  rw [magnitude?, Decimal.parse?_point (by rwa [same]) (by simp [same]), same, value,
    Option.bind_some, read]
  rfl

namespace Framing

/-- The marks have no blanks at their ends. -/
def Trimmed (framing : Framing) : Prop :=
  Text.trim framing.opening = framing.opening ∧ Text.trim framing.closing = framing.closing

instance (framing : Framing) : Decidable framing.Trimmed :=
  inferInstanceAs (Decidable (_ ∧ _))

/-- A payload that is no mark and does not begin with the lead. -/
def Plain (framing : Framing) (payload : List Char) : Prop :=
  payload ≠ framing.opening.toList ∧ payload ≠ framing.closing.toList ∧
    ∀ lead, framing.lead = some lead → lead ≠ "" → ¬lead.toList <+: payload

/-- Whatever came before, an opening line, a plain line of numerals and a closing line publish a
frame with the numerals' magnitudes. Blanks may stand around each of the lines. -/
def Receives (framing : Framing) (binCount : Nat) : Prop :=
  ∀ (before : List Arrival) (first second third : Arrival) (numerals : List (List Char))
    (values : List Binary32),
    numerals.length = binCount → numerals.mapM Payload.magnitude? = some values →
    framing.Plain (Payload.joined numerals) →
    Text.trim first.line = Text.trim framing.opening →
    Text.trimmed second.line.toList = Payload.joined numerals →
    Text.trim third.line = Text.trim framing.closing →
    ((Decoder.new binCount framing).after before).results [first, second, third] =
      [.ok none, .ok none, .ok (some
        ⟨(Decoder.frames ((Decoder.new binCount framing).results before)).length, values,
          third.now⟩)]

theorem Plain.not_marks {framing : Framing} {line : String}
    (plain : framing.Plain (Text.trimmed line.toList)) : ¬framing.Marks line := by
  rintro (opens | closes)
  · apply plain.1
    rw [← Text.toList_trim, opens]
  · apply plain.2.1
    rw [← Text.toList_trim, closes.2]

theorem Plain.content_eq {framing : Framing} {line : String}
    (plain : framing.Plain (Text.trimmed line.toList)) : framing.content line = Text.trim line := by
  rw [content]
  cases lead : framing.lead with
  | none => rfl
  | some text =>
    apply if_neg
    rintro ⟨nonempty, begins⟩
    rw [Text.toList_trim] at begins
    exact plain.2.2 text lead nonempty begins

theorem plain_of_long {framing : Framing} {payload : List Char}
    (long : framing.opening.length + framing.closing.length < payload.length)
    (apart : ∀ lead, framing.lead = some lead → ∀ c ∈ payload.head?, c ∉ lead.toList.head?) :
    framing.Plain payload := by
  refine ⟨?_, ?_, ?_⟩
  · rintro rfl
    rw [String.length_toList] at long
    omega
  · rintro rfl
    rw [String.length_toList] at long
    omega
  · intro lead given nonempty begins
    obtain ⟨c, cs, chars⟩ : ∃ c cs, lead.toList = c :: cs :=
      List.exists_cons_of_ne_nil (by simpa using nonempty)
    obtain ⟨rest, rfl⟩ := begins
    exact apart lead given c (by rw [chars]; rfl) (by rw [chars]; rfl)

/-- Some numeral makes a plain payload, whatever follows it. -/
theorem exists_plain (framing : Framing) :
    ∃ numeral, Payload.magnitude? numeral = some 0 ∧ ∀ rest, framing.Plain (numeral ++ rest) := by
  let zeros := '.' :: List.replicate (framing.opening.length + framing.closing.length + 1) '0'
  have long (whole rest : List Char) :
      framing.opening.length + framing.closing.length < (whole ++ zeros ++ rest).length := by
    simp only [zeros, List.length_append, List.length_cons, List.length_replicate]
    omega
  by_cases point : ∃ lead, framing.lead = some lead ∧ '.' ∈ lead.toList.head?
  · obtain ⟨lead, given, first⟩ := point
    refine ⟨['0'] ++ zeros, Payload.magnitude?_zeros (.inr rfl) _, fun rest => ?_⟩
    apply plain_of_long (long ['0'] rest)
    intro other again c zero same
    cases given.symm.trans again
    cases zero
    cases first.symm.trans same
  · refine ⟨zeros, Payload.magnitude?_zeros (.inl rfl) _, fun rest => ?_⟩
    apply plain_of_long (long [] rest)
    intro lead given c first same
    cases first
    exact point ⟨lead, given, same⟩

theorem Trimmed.receives {framing : Framing} {binCount : Nat} (trimmed : framing.Trimmed)
    (differ : framing.opening ≠ framing.closing) (positive : 0 < binCount) :
    framing.Receives binCount := by
  intro before first second third numerals values count read plain begins payload ends
  have opens : framing.Opens first.line := begins.trans trimmed.1
  have closes : framing.Closes third.line := by
    have same : Text.trim third.line = framing.closing := ends.trans trimmed.2
    refine ⟨fun opens => differ ?_, same⟩
    rw [← opens, same]
  rw [← payload] at plain
  have content : framing.content second.line = String.ofList (Payload.joined numerals) := by
    rw [plain.content_eq, Text.trim, payload]
  have nonempty : numerals ≠ [] := by
    rintro rfl
    exact positive.ne count
  have parsed : Payload.parse ("" ++ String.ofList (Payload.joined numerals)) binCount =
      .ok values := by
    rw [String.empty_append, ← count, Payload.parse_joined nonempty read]
  rw [Decoder.after_new, Decoder.results, Decoder.value_feed_of_opens _ _ opens, Decoder.results,
    Decoder.value_feed_of_not_marks _ _ plain.not_marks, Decoder.results,
    Decoder.value_feed_of_closes _ _ closes, content]
  dsimp only [Decoder.answer]
  rw [parsed]
  rfl

end Framing

namespace Decoder

/-- Only a closing line publishes a frame. -/
theorem closes_of_published {d : Decoder} {now line : String} {frame : Frame}
    (published : (d.feed now line).value.1 = .ok (some frame)) : d.framing.Closes line := by
  by_contra notClosing
  by_cases opens : d.framing.Opens line
  · rw [value_feed_of_opens d now opens] at published
    cases published
  · rw [value_feed_of_not_marks d now (not_or.mpr ⟨opens, notClosing⟩)] at published
    cases published

theorem not_closes_of_none {d : Decoder} {now line : String}
    (silent : (d.feed now line).value.1 = .ok none) : ¬d.framing.Closes line := by
  intro closes
  rw [value_feed_of_closes d now closes, answer] at silent
  cases read : Payload.parse d.pending d.binCount with
  | ok values =>
    rw [read] at silent
    cases silent
  | error e =>
    rw [read] at silent
    cases silent

end Decoder

namespace Framing

variable {framing : Framing} {binCount : Nat}

theorem joined_replicate (numeral : List Char) (more : Nat) :
    ∃ rest, Payload.joined (List.replicate (more + 1) numeral) = numeral ++ rest := by
  cases more with
  | zero => exact ⟨[], by simp [Payload.joined]⟩
  | succ more =>
    refine ⟨',' :: Payload.joined (List.replicate (more + 1) numeral), ?_⟩
    rw [Payload.joined, List.replicate_succ, List.replicate_succ, List.intercalate_cons_cons,
      List.append_assoc, ← List.replicate_succ]
    rfl

theorem mapM_replicate {numeral : List Char} {value : Binary32}
    (h : Payload.magnitude? numeral = some value) (count : Nat) :
    (List.replicate count numeral).mapM Payload.magnitude? = some (List.replicate count value) := by
  induction count with
  | zero => rfl
  | succ count ih =>
    rw [List.replicate_succ, List.mapM_cons, h, ih]
    rfl

theorem Receives.exists_frame (receives : framing.Receives binCount) (positive : 0 < binCount) :
    ∃ payload, ¬framing.Marks payload ∧ ∀ before,
      (((Decoder.new binCount framing).after before).feed "" framing.opening).value.1 = .ok none ∧
      ∃ frame, (((Decoder.new binCount framing).after
        (before ++ [⟨"", framing.opening⟩, ⟨"", payload⟩])).feed "" framing.closing).value.1 =
          .ok (some frame) := by
  obtain ⟨numeral, zero, plain⟩ := framing.exists_plain
  obtain ⟨more, rfl⟩ := Nat.exists_eq_succ_of_ne_zero positive.ne'
  obtain ⟨rest, joined⟩ := joined_replicate numeral more
  have read := mapM_replicate zero (more + 1)
  have plainPayload : framing.Plain (Payload.joined (List.replicate (more + 1) numeral)) :=
    joined ▸ plain rest
  have solid : Text.trimmed
      (String.ofList (Payload.joined (List.replicate (more + 1) numeral))).toList =
        Payload.joined (List.replicate (more + 1) numeral) := by
    rw [String.toList_ofList]
    exact Text.trimmed_of_forall
      (Payload.not_blank_of_mem_joined (Payload.isNumeral_of_mapM read))
  refine ⟨String.ofList (Payload.joined (List.replicate (more + 1) numeral)),
    Plain.not_marks (solid.symm ▸ plainPayload), fun before => ?_⟩
  have received := receives before ⟨"", framing.opening⟩
    ⟨"", String.ofList (Payload.joined (List.replicate (more + 1) numeral))⟩
    ⟨"", framing.closing⟩ _ _ List.length_replicate read plainPayload rfl solid rfl
  rw [Decoder.after_append]
  injection received with first received
  injection received with second received
  injection received with third received
  exact ⟨first, _, third⟩

theorem Receives.closing_trimmed (receives : framing.Receives binCount) (positive : 0 < binCount) :
    Text.trim framing.closing = framing.closing := by
  obtain ⟨payload, -, received⟩ := receives.exists_frame positive
  obtain ⟨-, frame, published⟩ := received []
  rw [Decoder.after_new] at published
  exact (Decoder.closes_of_published published).2

theorem exists_noise (framing : Framing) (binCount : Nat) :
    ∃ noise, ¬framing.Marks noise ∧ binCount < (framing.content noise).toList.count ',' := by
  obtain ⟨numeral, zero, plain⟩ := framing.exists_plain
  have numerals := Decimal.isNumeral_of_parse? (Payload.parse?_ne_none_of_magnitude? zero)
  let noise := numeral ++ List.replicate (binCount + 1) ','
  have solid : Text.trimmed (String.ofList noise).toList = noise := by
    rw [String.toList_ofList]
    apply Text.trimmed_of_forall
    intro c among
    rcases List.mem_append.mp among with inside | comma
    · exact (numerals c inside).not_blank
    · rw [List.eq_of_mem_replicate comma]
      decide
  have noisePlain : framing.Plain (Text.trimmed (String.ofList noise).toList) :=
    solid.symm ▸ plain _
  refine ⟨String.ofList noise, noisePlain.not_marks, ?_⟩
  rw [noisePlain.content_eq, Text.toList_trim, solid, List.count_append,
    List.count_replicate_self]
  omega

/-- An opening mark that is not found lets noise from before into the frame. -/
theorem Receives.opening_trimmed (receives : framing.Receives binCount) (positive : 0 < binCount) :
    Text.trim framing.opening = framing.opening := by
  by_contra padded
  obtain ⟨payload, payloadContent, received⟩ := receives.exists_frame positive
  obtain ⟨noise, noiseContent, commas⟩ := framing.exists_noise binCount
  obtain ⟨first, frame, published⟩ := received [⟨"", noise⟩]
  rw [Decoder.after_new] at first
  have openingContent : ¬framing.Marks framing.opening :=
    not_or.mpr ⟨padded, Decoder.not_closes_of_none first⟩
  have closes : framing.Closes framing.closing := by
    rw [Decoder.after_new] at published
    exact Decoder.closes_of_published published
  have waits : framing.waiting ([] ++ [noise] ++ [framing.opening] ++ [payload]) =
      framing.content noise ++ framing.content framing.opening ++ framing.content payload := by
    rw [waiting_concat_content _ payloadContent, waiting_concat_content _ openingContent,
      waiting_concat_content _ noiseContent, waiting_nil, String.empty_append]
  refine Payload.parse_ne_ok_of_commas ?_ _ (waits ▸ Decoder.parse_of_published closes published)
  rw [String.toList_append, String.toList_append, List.count_append, List.count_append]
  omega

end Framing

/-- Settings that were accepted receive every frame that is sent under them exactly if their marks
have no blanks at the ends. -/
theorem Settings.receives_iff (s : Settings) (accepted : s.Accepted) :
    s.framing.Receives s.binCount ↔ s.framing.Trimmed := by
  have positive := accepted.binCount_pos
  constructor
  · intro receives
    exact ⟨receives.opening_trimmed positive, receives.closing_trimmed positive⟩
  · intro trimmed
    exact trimmed.receives (s.accepted_iff.mp accepted).2.2.2.2.2 positive

/-- The marks that the device uses are found. -/
theorem Settings.receives_iff_device :
    Settings.standard.Accepted ∧ Settings.standard.framing.Receives Settings.standard.binCount :=
  ⟨by decide, (Settings.standard.receives_iff (by decide)).mpr (by decide)⟩

/-- Settings are accepted whose closing mark ends in a blank. It is taken for payload, and the frame
is lost. -/
theorem Settings.accepted_padded :
    let s : Settings := { Settings.standard with fftSize := 2, framing := ⟨"START", "END ", none⟩ }
    s.Accepted ∧ s.framing.Plain "7".toList ∧ ¬s.framing.Receives s.binCount ∧
      (Decoder.new s.binCount s.framing).results [⟨"a", "START"⟩, ⟨"b", "7"⟩, ⟨"c", "END "⟩] =
        [.ok none, .ok none, .ok none] := by
  intro s
  have plain : s.framing.Plain "7".toList := by
    refine ⟨by decide, by decide, ?_⟩
    intro lead given
    cases given
  have lost : (Decoder.new s.binCount s.framing).results
      [⟨"a", "START"⟩, ⟨"b", "7"⟩, ⟨"c", "END "⟩] = [.ok none, .ok none, .ok none] := by
    decide
  refine ⟨by decide, plain, ?_, lost⟩
  intro receives
  have received := receives [] ⟨"a", "START"⟩ ⟨"b", "7"⟩ ⟨"c", "END "⟩ [['7']] [7] (by decide)
    (by decide +kernel) plain (by decide) (by decide) (by decide)
  cases lost.symm.trans received

end SpectrumViewer
