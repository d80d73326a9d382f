import SpectrumViewer.Proofs.Demo.Magnitude
import SpectrumViewer.Proofs.Frame.Reception
import SpectrumViewer.Proofs.Number.FixedPlaces

set_option autoImplicit false

/-!
The decoder undoes the synthetic device. The payload of a frame arrives in several lines, the first
of them behind the lead, and their contents make up the text of all its values; each value is read
as the one nearest to what was written. So the frames of the device come out of the decoder one for
one and in order (`decode_transmission`).
-/

namespace SpectrumViewer

open BinaryFormat (single)
open FixedPlaces (Restores)

/-- A mark that no line of numbers can be taken for. -/
def Framing.IsSeparate (mark : String) : Prop :=
  Text.trim mark = mark ∧ ∃ c ∈ mark.toList.getLast?, c.isDigit = false ∧ c ≠ ','

/-- Marks and a lead that can be told from numbers. -/
structure Framing.Separable (framing : Framing) : Prop where
  differ : framing.opening ≠ framing.closing
  opening : IsSeparate framing.opening
  closing : IsSeparate framing.closing
  lead : ∀ c ∈ (framing.lead.getD "").toList.head?, Text.isBlank c = false ∧ c.isDigit = false

namespace Demo

theorem toList_valuesText (values : List Binary32) :
    (valuesText values).toList = Payload.joined (values.map fun x => (x.fixed 4).toList) := by
  rw [valuesText, String.toList_intercalate, List.map_map]
  rfl

theorem valuesText_append {first second : List Binary32} (left : first ≠ []) (right : second ≠ []) :
    valuesText (first ++ second) = valuesText first ++ "," ++ valuesText second := by
  rw [← String.toList_inj]
  simp only [String.toList_append, toList_valuesText, List.map_append]
  rw [Payload.joined_append (by simpa using left) (by simpa using right), List.append_assoc]
  rfl

theorem ne_nil_of_length_gt {values : List Binary32} (long : ¬values.length ≤ valuesPerLine) :
    values.take valuesPerLine ≠ [] ∧ values.drop valuesPerLine ≠ [] := by
  rw [valuesPerLine] at *
  constructor <;> rw [← List.length_pos_iff]
  · rw [List.length_take]
    omega
  · rw [List.length_drop]
    omega

/-- The lines of a payload, one behind the other, are the text of all its values. -/
theorem join_payloadLines (values : List Binary32) :
    String.join (payloadLines values) = valuesText values := by
  fun_induction payloadLines values with
  | case1 => rfl
  | case2 values short nonempty => rw [String.join_cons, String.join_nil, String.append_empty]
  | case3 values long ih =>
    obtain ⟨front, back⟩ := ne_nil_of_length_gt long
    rw [String.join_cons, ih, ← valuesText_append front back, List.take_append_drop]

/-- A text that begins with a digit and ends with a digit or a comma. -/
def IsNumeric (line : String) : Prop :=
  (∃ c ∈ line.toList.head?, c.isDigit = true) ∧
    ∃ c ∈ line.toList.getLast?, c.isDigit = true ∨ c = ','

section Values

variable {values : List Binary32} (signs : ∀ x ∈ values, ∃ code, x = .finite false code)

include signs

theorem isNumeric_valuesText (nonempty : values ≠ []) : IsNumeric (valuesText values) := by
  have ends (token : List Char) (among : token ∈ values.map fun x => (x.fixed 4).toList) :
      (∃ c ∈ token.head?, c.isDigit = true) ∧ ∃ c ∈ token.getLast?, c.isDigit = true := by
    obtain ⟨x, membership, rfl⟩ := List.mem_map.mp among
    obtain ⟨code, rfl⟩ := signs x membership
    exact FixedPlaces.fixed_ends (by decide) code
  rw [IsNumeric, toList_valuesText]
  constructor
  · exact Payload.head?_joined (by simpa using nonempty) fun token among => (ends token among).1
  · apply Payload.getLast?_joined (by simpa using nonempty)
    intro token among
    obtain ⟨c, last, digit⟩ := (ends token among).2
    exact ⟨c, last, Or.inl digit⟩

theorem isNumeric_of_mem_payloadLines : ∀ line ∈ payloadLines values, IsNumeric line := by
  fun_induction payloadLines values with
  | case1 => exact List.forall_mem_nil _
  | case2 values short nonempty =>
    exact List.forall_mem_singleton.mpr (isNumeric_valuesText signs nonempty)
  | case3 values long ih =>
    refine List.forall_mem_cons.mpr ⟨?_, ih fun x later => signs x (List.mem_of_mem_drop later)⟩
    obtain ⟨⟨c, first, digit⟩, -⟩ := isNumeric_valuesText
      (fun x early => signs x (List.mem_of_mem_take early)) (ne_nil_of_length_gt long).1
    constructor
    · exact ⟨c, by rw [String.toList_append]; exact List.mem_head?_append_of_mem_head? first, digit⟩
    · exact ⟨',', by rw [String.toList_append]; exact List.getLast?_concat, Or.inr rfl⟩

theorem exists_mapM_magnitude? :
    ∃ read, (values.map fun x => (x.fixed 4).toList).mapM Payload.magnitude? = some read ∧
      List.Forall₂ (Restores 4) values read := by
  induction values with
  | nil => exact ⟨[], rfl, .nil⟩
  | cons x rest ih =>
    obtain ⟨⟨code, rfl⟩, later⟩ := List.forall_mem_cons.mp signs
    obtain ⟨read, known, restored⟩ := ih later
    obtain ⟨d, code', parsed, value, same⟩ :=
      FixedPlaces.exists_restores (by decide : 4 ≠ 0) (by decide) code
    refine ⟨.finite false code' :: read, ?_, .cons same restored⟩
    have first : Payload.magnitude? ((Binary32.finite false code).fixed 4).toList =
        some (.finite false code') := by
      rw [Payload.magnitude?, parsed, Option.bind_some, value]
      rfl
    rw [List.map_cons, List.mapM_cons, first, known]
    rfl

theorem exists_parse_valuesText (nonempty : values ≠ []) :
    ∃ read, Payload.parse (valuesText values) values.length = .ok read ∧
      List.Forall₂ (Restores 4) values read := by
  obtain ⟨read, known, restored⟩ := exists_mapM_magnitude? signs
  refine ⟨read, ?_, restored⟩
  have parsed := Payload.parse_joined (by simpa using nonempty) known
  rwa [← toList_valuesText, String.ofList_toList, List.length_map] at parsed

end Values

end Demo

namespace Framing

open Demo (IsNumeric)

variable {framing : Framing}

theorem IsSeparate.ne_of_getLast? {mark line : String} (separate : IsSeparate mark)
    (ends : ∃ c ∈ line.toList.getLast?, c.isDigit = true ∨ c = ',') : line ≠ mark := by
  rintro rfl
  obtain ⟨-, c, last, letter, comma⟩ := separate
  obtain ⟨c', last', numeric⟩ := ends
  obtain rfl := Option.some.inj (last.symm.trans last')
  rcases numeric with digit | same
  · rw [digit] at letter
    cases letter
  · exact comma same

theorem Separable.not_marks_of_ends (separable : framing.Separable) {line : String}
    (begins : ∀ c ∈ line.toList.head?, Text.isBlank c = false)
    (ends : ∃ c ∈ line.toList.getLast?, c.isDigit = true ∨ c = ',') :
    Text.trim line = line ∧ ¬framing.Marks line := by
  have trimmed : Text.trim line = line := by
    rw [Text.trim, Text.trimmed_of_ends begins, String.ofList_toList]
    obtain ⟨c, last, numeric⟩ := ends
    intro c' last'
    obtain rfl := Option.some.inj (last.symm.trans last')
    rcases numeric with digit | rfl
    · exact Text.isBlank_of_isDigit digit
    · decide
  refine ⟨trimmed, ?_⟩
  rintro (opens | closes)
  · exact separable.opening.ne_of_getLast? ends (trimmed.symm.trans opens)
  · exact separable.closing.ne_of_getLast? ends (trimmed.symm.trans closes.2)

theorem exists_toList_eq_cons {text : String} (nonempty : text ≠ "") :
    ∃ c rest, text.toList = c :: rest :=
  List.exists_cons_of_ne_nil (by simpa using nonempty)

theorem Separable.content_of_isNumeric (separable : framing.Separable) {line : String}
    (numeric : IsNumeric line) : ¬framing.Marks line ∧ framing.content line = line := by
  obtain ⟨⟨c, first, digit⟩, ends⟩ := numeric
  have begins : ∀ c' ∈ line.toList.head?, Text.isBlank c' = false := by
    intro c' first'
    obtain rfl := Option.some.inj (first.symm.trans first')
    exact Text.isBlank_of_isDigit digit
  obtain ⟨trimmed, content⟩ := separable.not_marks_of_ends begins ends
  refine ⟨content, ?_⟩
  rw [Framing.content, trimmed]
  cases lead : framing.lead with
  | none => rfl
  | some text =>
    apply if_neg
    rintro ⟨nonempty, rest, split⟩
    obtain ⟨c', others, characters⟩ := exists_toList_eq_cons nonempty
    have letter := (separable.lead c' (by simp [lead, characters])).2
    rw [← split, characters] at first
    obtain rfl := Option.some.inj first
    rw [digit] at letter
    cases letter

theorem Separable.content_lead (separable : framing.Separable) {line : String}
    (numeric : IsNumeric line) :
    ¬framing.Marks (framing.lead.getD "" ++ line) ∧
      framing.content (framing.lead.getD "" ++ line) = line := by
  by_cases empty : framing.lead.getD "" = ""
  · rw [empty, String.empty_append]
    exact separable.content_of_isNumeric numeric
  obtain ⟨text, lead⟩ : ∃ text, framing.lead = some text := by
    cases lead : framing.lead with
    | none => simp [lead] at empty
    | some text => exact ⟨text, rfl⟩
  rw [lead, Option.getD_some] at empty ⊢
  obtain ⟨c, others, characters⟩ := exists_toList_eq_cons empty
  have begins : ∀ c' ∈ (text ++ line).toList.head?, Text.isBlank c' = false := by
    intro c' first
    rw [String.toList_append, characters] at first
    obtain rfl := Option.some.inj first
    exact (separable.lead c (by simp [lead, characters])).1
  have ends : ∃ c ∈ (text ++ line).toList.getLast?, c.isDigit = true ∨ c = ',' := by
    obtain ⟨c', last, numeric⟩ := numeric.2
    exact ⟨c', by rw [String.toList_append]; exact List.mem_getLast?_append_of_mem_getLast? last,
      numeric⟩
  obtain ⟨trimmed, content⟩ := separable.not_marks_of_ends begins ends
  refine ⟨content, ?_⟩
  rw [Framing.content, lead, trimmed]
  dsimp only
  rw [if_pos ⟨empty, by rw [String.toList_append]; exact List.prefix_append _ _⟩,
    String.toList_append, ← String.length_toList, List.drop_left, String.ofList_toList]

theorem Separable.opens_opening (separable : framing.Separable) :
    framing.Opens framing.opening := separable.opening.1

theorem Separable.closes_closing (separable : framing.Separable) :
    framing.Closes framing.closing := by
  refine ⟨fun opens => separable.differ ?_, separable.closing.1⟩
  exact opens.symm.trans separable.closing.1

theorem Separable.contents_withLead (separable : framing.Separable) {lines : List String}
    (numeric : ∀ line ∈ lines, IsNumeric line) :
    (∀ line ∈ Demo.withLead framing.lead lines, ¬framing.Marks line) ∧
      (Demo.withLead framing.lead lines).map framing.content = lines := by
  cases lines with
  | nil => exact ⟨List.forall_mem_nil _, rfl⟩
  | cons first rest =>
    obtain ⟨firstNumeric, restNumeric⟩ := List.forall_mem_cons.mp numeric
    obtain ⟨unmarked, content⟩ := separable.content_lead firstNumeric
    have later (line : String) (among : line ∈ rest) :=
      separable.content_of_isNumeric (restNumeric line among)
    constructor
    · exact List.forall_mem_cons.mpr ⟨unmarked, fun line among => (later line among).1⟩
    · rw [Demo.withLead, List.map_cons, content]
      exact congrArg _ ((List.map_congr_left fun line among => (later line among).2).trans
        (List.map_id' rest))

end Framing

namespace Decoder

/-- The results of lines of which the last completes a frame. -/
def completing (arrivals : List Arrival) (frame : Frame) :
    List (Except PayloadError (Option Frame)) :=
  List.replicate (arrivals.length - 1) (.ok none) ++ [.ok (some frame)]

theorem results_of_not_marks (d : Decoder) {arrivals : List Arrival}
    (content : ∀ a ∈ arrivals, ¬d.framing.Marks a.line) :
    d.results arrivals = List.replicate arrivals.length (.ok none) ∧
      d.after arrivals = { d with
        pending := d.pending ++ String.join (arrivals.map fun a => d.framing.content a.line) } := by
  induction arrivals generalizing d with
  | nil => exact ⟨rfl, by simp [after]⟩
  | cons a rest ih =>
    obtain ⟨first, later⟩ := List.forall_mem_cons.mp content
    have fed := d.value_feed_of_not_marks a.now first
    obtain ⟨results, after⟩ := ih { d with pending := d.pending ++ d.framing.content a.line } later
    constructor
    · rw [Decoder.results, fed, results]
      rfl
    · rw [Decoder.after, fed, after, List.map_cons, String.join_cons, String.append_assoc]

/-- Whatever waits in a decoder, the lines of a frame publish it. -/
theorem results_frameLines {d : Decoder} {values : List Binary32} {arrivals : List Arrival}
    (separable : d.framing.Separable) (nonempty : values ≠ [])
    (signs : ∀ x ∈ values, ∃ code, x = .finite false code) (count : values.length = d.binCount)
    (lines : arrivals.map Arrival.line = Demo.frameLines d.framing values) :
    ∃ frame : Frame, d.results arrivals = completing arrivals frame ∧
      frame.sequence = d.published ∧ List.Forall₂ (Restores 4) values frame.values ∧
      d.after arrivals = { d with pending := "", published := d.published + 1 } := by
  obtain ⟨first, rest, rfl, opening, lines⟩ := List.map_eq_cons_iff.mp lines
  obtain ⟨middle, ending, rfl, payload, lines⟩ := List.map_eq_append_iff.mp lines
  obtain ⟨last, rfl, closing⟩ := List.map_eq_singleton_iff.mp lines
  have opens : d.framing.Opens first.line := opening ▸ separable.opens_opening
  have closes : d.framing.Closes last.line := closing ▸ separable.closes_closing
  obtain ⟨unmarked, contents⟩ :=
    separable.contents_withLead (Demo.isNumeric_of_mem_payloadLines signs)
  rw [← payload] at unmarked contents
  rw [List.map_map] at contents
  obtain ⟨read, parsed, restored⟩ := Demo.exists_parse_valuesText signs nonempty
  have fedFirst := d.value_feed_of_opens first.now opens
  obtain ⟨resultsMiddle, afterMiddle⟩ := results_of_not_marks { d with pending := "" }
    fun a among => unmarked a.line (List.mem_map_of_mem among)
  have waiting : String.join (middle.map fun a => d.framing.content a.line) =
      Demo.valuesText values := by
    rw [← Demo.join_payloadLines, ← contents]
    rfl
  rw [waiting, String.empty_append] at afterMiddle
  have answer : answer { d with pending := Demo.valuesText values } last.now =
      .ok (some ⟨d.published, read, last.now⟩) := by
    rw [Decoder.answer, ← count, parsed]
    rfl
  have fedLast := value_feed_of_closes { d with pending := Demo.valuesText values } last.now closes
  rw [answer] at fedLast
  refine ⟨⟨d.published, read, last.now⟩, ?_, rfl, restored, ?_⟩
  · have count : (first :: (middle ++ [last])).length - 1 = middle.length + 1 := by simp
    rw [results, fedFirst, results_append, resultsMiddle, afterMiddle, results, fedLast, completing,
      count, List.replicate_succ, List.cons_append]
    rfl
  · rw [after, fedFirst, after_append, afterMiddle, after, fedLast]
    rfl

end Decoder

namespace Demo

/-- The lines of a number of frames in a row, if their magnitudes can be had. -/
def transmission? (elementary : Elementary) (demo : Demo) :
    (frames : Nat) → Option (List (List String))
  | 0 => some []
  | frames + 1 => (demo.nextLines? elementary).bind fun step =>
    (transmission? elementary step.value.2 frames).map (step.value.1 :: ·)

/-- The frame has a value for each bin, and these restore the magnitudes of the device's frame. -/
def Restored (elementary : Elementary) (demo : Demo) (index : Nat) (frame : Frame) : Prop :=
  frame.values.length = demo.binCount ∧
    ∃ values, demo.magnitudes? index elementary = some values ∧
      List.Forall₂ (Restores 4) values frame.values

section Transmission

variable (elementary : Elementary)

theorem transmission?_succ {demo : Demo} {values : List Binary32}
    (known : demo.magnitudes? demo.next elementary = some values) (frames : Nat) :
    demo.transmission? elementary (frames + 1) =
      ({ demo with next := demo.next + 1 }.transmission? elementary frames).map
        (frameLines demo.framing values :: ·) := by
  rw [transmission?, nextLines?, known]
  rfl

theorem exists_transmission (demo : Demo) {frames : Nat}
    (span : 120 * (demo.binCount - 1) < 2 ^ 64) (indices : demo.next + frames < 2 ^ 64) :
    ∃ lines, demo.transmission? elementary frames = some lines := by
  induction frames generalizing demo with
  | zero => exact ⟨[], rfl⟩
  | succ frames ih =>
    obtain ⟨values, known, -⟩ :=
      exists_magnitudes elementary demo span (by omega : demo.next < 2 ^ 64)
    obtain ⟨lines, rest⟩ := ih { demo with next := demo.next + 1 } span (by simp only; omega)
    refine ⟨frameLines demo.framing values :: lines, ?_⟩
    rw [transmission?_succ elementary known, rest]
    rfl

theorem results_transmission (demo : Demo) (d : Decoder) {frames : Nat}
    {batches : List (List Arrival)} (positive : 1 ≤ demo.binCount)
    (span : 120 * (demo.binCount - 1) < 2 ^ 64) (indices : demo.next + frames < 2 ^ 64)
    (separable : demo.framing.Separable) (sameCount : d.binCount = demo.binCount)
    (sameFraming : d.framing = demo.framing)
    (lines : demo.transmission? elementary frames = some (batches.map (List.map Arrival.line))) :
    ∃ received : List Frame, received.length = frames ∧
      d.results batches.flatten = (List.zipWith Decoder.completing batches received).flatten ∧
      ∀ j (h : j < received.length), received[j].sequence = d.published + j ∧
        demo.Restored elementary (demo.next + j) received[j] := by
  induction frames generalizing demo d batches with
  | zero =>
    obtain rfl : batches = [] := List.map_eq_nil_iff.mp (Option.some.inj lines).symm
    exact ⟨[], rfl, rfl, fun j h => absurd h (Nat.not_lt_zero j)⟩
  | succ frames ih =>
    obtain ⟨values, known, length, signs⟩ :=
      exists_magnitudes elementary demo span (by omega : demo.next < 2 ^ 64)
    rw [transmission?_succ elementary known] at lines
    obtain ⟨later, known', lines⟩ := Option.map_eq_some_iff.mp lines
    obtain ⟨first, rest, rfl, firstLines, restLines⟩ := List.map_eq_cons_iff.mp lines.symm
    have nonempty : values ≠ [] := by
      rw [← List.length_pos_iff]
      omega
    rw [← sameFraming] at firstLines
    obtain ⟨frame, results, number, restored, after⟩ := Decoder.results_frameLines
      (sameFraming ▸ separable) nonempty signs (length.trans sameCount.symm) firstLines
    obtain ⟨received, count, resultsRest, each⟩ :=
      ih { demo with next := demo.next + 1 } (d.after first) positive span
        (by simp only; omega) separable (by rw [after]; exact sameCount)
        (by rw [after]; exact sameFraming) (by rw [known', restLines])
    refine ⟨frame :: received, by rw [List.length_cons, count], ?_, ?_⟩
    · rw [List.flatten_cons, Decoder.results_append, results, resultsRest]
      rfl
    · intro j h
      cases j with
      | zero => exact ⟨number, restored.length_eq ▸ length, values, known, restored⟩
      | succ j =>
        obtain ⟨numberRest, restoredRest⟩ := each j (by simpa using h)
        rw [after] at numberRest
        rw [List.getElem_cons_succ, numberRest, Nat.add_comm j 1, ← Nat.add_assoc, ← Nat.add_assoc]
        exact ⟨rfl, restoredRest⟩

/-- With any sine and exponential that keep to their ranges the next frames of the device can be
had, and whatever a decoder with its marks and its number of bins went through before, it publishes
each of them with the last of its lines, with the number that is next in turn and with the values
that restore what was written. -/
theorem decode_transmission (demo : Demo) (d : Decoder) (frames : Nat)
    (positive : 1 ≤ demo.binCount) (span : 120 * (demo.binCount - 1) < 2 ^ 64)
    (indices : demo.next + frames < 2 ^ 64) (separable : demo.framing.Separable)
    (sameCount : d.binCount = demo.binCount) (sameFraming : d.framing = demo.framing) :
    ∃ lines, demo.transmission? elementary frames = some lines ∧
      ∀ batches : List (List Arrival), batches.map (List.map Arrival.line) = lines →
        ∃ received : List Frame, received.length = frames ∧
          d.results batches.flatten =
            (List.zipWith Decoder.completing batches received).flatten ∧
          ∀ j (h : j < received.length), received[j].sequence = d.published + j ∧
            demo.Restored elementary (demo.next + j) received[j] := by
  obtain ⟨lines, known⟩ := exists_transmission elementary demo span indices
  refine ⟨lines, known, fun batches same => ?_⟩
  rw [← same] at known
  exact results_transmission elementary demo d positive span indices separable sameCount
    sameFraming known

end Transmission

theorem separable_device : Framing.device.Separable where
  differ := by decide
  opening := ⟨by decide, 'T', rfl, by decide⟩
  closing := ⟨by decide, 'D', rfl, by decide⟩
  lead := by
    intro c first
    obtain rfl : 'C' = c := Option.some.inj first
    decide

/-- Two frames of 65 bins, each in two payload lines, for a decoder in which noise waits. -/
theorem decode_transmission_two :
    let demo : Demo := ⟨65, .device, 31⟩
    let d : Decoder := ⟨65, .device, "noise", 7⟩
    (1 ≤ demo.binCount ∧ 120 * (demo.binCount - 1) < 2 ^ 64 ∧ demo.next + 2 < 2 ^ 64 ∧
      demo.framing.Separable ∧ d.binCount = demo.binCount ∧ d.framing = demo.framing) ∧
    ∃ lines, demo.transmission? .series 2 = some lines ∧
      ∀ batches : List (List Arrival), batches.map (List.map Arrival.line) = lines →
        ∃ first second : Frame,
          d.results batches.flatten =
            (List.zipWith Decoder.completing batches [first, second]).flatten ∧
          (first.sequence = 7 ∧ demo.Restored .series 31 first) ∧
          second.sequence = 8 ∧ demo.Restored .series 32 second := by
  intro demo d
  refine ⟨⟨by decide, by decide, by decide, separable_device, rfl, rfl⟩, ?_⟩
  obtain ⟨lines, known, decoded⟩ := decode_transmission .series demo d 2 (by decide) (by decide)
    (by decide) separable_device rfl rfl
  refine ⟨lines, known, fun batches same => ?_⟩
  obtain ⟨received, count, results, each⟩ := decoded batches same
  obtain ⟨first, second, rfl⟩ := List.length_eq_two.mp count
  exact ⟨first, second, results, each 0 Nat.zero_lt_two, each 1 Nat.one_lt_two⟩

end Demo

end SpectrumViewer
