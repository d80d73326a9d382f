import Mathlib.Data.List.DropRight
import SpectrumViewer.Frame.Decoder

set_option autoImplicit false

/-!
The decoder as a function of its history. Of all lines before, only two things matter to what the
next line comes to: the payload that waits, which is the contents of the lines behind the last
mark, and the number of frames that were published (`after_new`, `feed_after_new`).
-/

namespace SpectrumViewer

namespace Framing

/-- The line opens a frame. -/
def Opens (framing : Framing) (line : String) : Prop := Text.trim line = framing.opening

/-- The line closes a frame. A line equal to both marks does not. -/
def Closes (framing : Framing) (line : String) : Prop :=
  ¬framing.Opens line ∧ Text.trim line = framing.closing

def Marks (framing : Framing) (line : String) : Prop := framing.Opens line ∨ framing.Closes line

instance (framing : Framing) (line : String) : Decidable (framing.Opens line) :=
  inferInstanceAs (Decidable (Text.trim line = framing.opening))

instance (framing : Framing) (line : String) : Decidable (framing.Closes line) :=
  inferInstanceAs (Decidable (¬framing.Opens line ∧ Text.trim line = framing.closing))

instance (framing : Framing) (line : String) : Decidable (framing.Marks line) :=
  inferInstanceAs (Decidable (framing.Opens line ∨ framing.Closes line))

/-- What a line adds to the payload if it is no mark. An empty lead is no lead. -/
def content (framing : Framing) (line : String) : String :=
  match framing.lead with
  | none => Text.trim line
  | some lead =>
    if lead ≠ "" ∧ lead.toList <+: (Text.trim line).toList then
      String.ofList ((Text.trim line).toList.drop lead.length)
    else Text.trim line

/-- The contents of the lines behind the last mark. -/
def waiting (framing : Framing) (lines : List String) : String :=
  String.join ((lines.rtakeWhile fun line => ¬framing.Marks line).map framing.content)

@[simp] theorem waiting_nil (framing : Framing) : framing.waiting [] = "" := by
  simp [waiting]

theorem waiting_concat_mark {framing : Framing} {line : String} (lines : List String)
    (h : framing.Marks line) : framing.waiting (lines ++ [line]) = "" := by
  rw [waiting, List.rtakeWhile_concat, if_neg (by simpa using h)]
  rfl

theorem waiting_concat_content {framing : Framing} {line : String} (lines : List String)
    (h : ¬framing.Marks line) :
    framing.waiting (lines ++ [line]) = framing.waiting lines ++ framing.content line := by
  rw [waiting, List.rtakeWhile_concat, if_pos (by simpa using h), List.map_append,
    String.join_append]
  simp [waiting]

theorem classify_of_opens {framing : Framing} {line : String} (h : framing.Opens line) :
    framing.classify line = .opening := by
  have same : Text.trimmed line.toList = framing.opening.toList := by
    rw [← Text.toList_trim, h]
  simp [classify, same]

theorem classify_of_closes {framing : Framing} {line : String} (h : framing.Closes line) :
    framing.classify line = .closing := by
  have other : Text.trimmed line.toList ≠ framing.opening.toList := by
    rw [← Text.toList_trim]
    exact fun same => h.1 (String.toList_inj.mp same)
  have same : Text.trimmed line.toList = framing.closing.toList := by
    rw [← Text.toList_trim, h.2]
  rw [classify, if_neg other, if_pos same]

theorem classify_of_not_marks {framing : Framing} {line : String} (h : ¬framing.Marks line) :
    framing.classify line = .content (framing.content line) := by
  obtain ⟨opens, closes⟩ := not_or.mp h
  have notOpening : Text.trimmed line.toList ≠ framing.opening.toList := by
    rw [← Text.toList_trim]
    exact fun same => opens (String.toList_inj.mp same)
  have notClosing : Text.trimmed line.toList ≠ framing.closing.toList := by
    rw [← Text.toList_trim]
    exact fun same => closes ⟨opens, String.toList_inj.mp same⟩
  rw [classify, if_neg notOpening, if_neg notClosing, content, Text.toList_trim]
  cases framing.lead with
  | none => simp [Text.trim]
  | some lead =>
    by_cases empty : lead = ""
    · simp [empty, Text.trim]
    · simp only [Option.getD_some, List.isPrefixOf_iff_prefix, ne_eq, empty, not_false_eq_true,
        true_and, String.length_toList]
      split <;> rfl

end Framing

/-- A line and the time at which it arrives. -/
structure Arrival where
  now : String
  line : String

namespace Decoder

theorem value_feed_of_opens (d : Decoder) (now : String) {line : String}
    (h : d.framing.Opens line) :
    (d.feed now line).value = (.ok none, { d with pending := "" }) := by
  rw [feed, Framing.classify_of_opens h]
  by_cases empty : d.pendingBytes = 0 <;> simp [empty]

theorem value_feed_of_not_marks (d : Decoder) (now : String) {line : String}
    (h : ¬d.framing.Marks line) :
    (d.feed now line).value =
      (.ok none, { d with pending := d.pending ++ d.framing.content line }) := by
  rw [feed, Framing.classify_of_not_marks h]
  rfl

/-- The frames among results, the first one first. -/
def frames (results : List (Except PayloadError (Option Frame))) : List Frame :=
  results.filterMap fun
    | .ok frame => frame
    | .error _ => none

@[simp] theorem frames_append (first second : List (Except PayloadError (Option Frame))) :
    frames (first ++ second) = frames first ++ frames second :=
  List.filterMap_append

/-- The answer to a closing line: the frame that the payload makes, or why it makes none. -/
def answer (d : Decoder) (now : String) : Except PayloadError (Option Frame) :=
  (Payload.parse d.pending d.binCount).map fun values => some ⟨d.published, values, now⟩

theorem value_feed_of_closes (d : Decoder) (now : String) {line : String}
    (h : d.framing.Closes line) :
    (d.feed now line).value =
      (d.answer now, { d with
        pending := "", published := d.published + (frames [d.answer now]).length }) := by
  rw [feed, Framing.classify_of_closes h, answer]
  cases Payload.parse d.pending d.binCount with
  | ok values => rfl
  | error e => rfl

/-- What a decoder makes of each of some lines. -/
def results (d : Decoder) : List Arrival → List (Except PayloadError (Option Frame))
  | [] => []
  | a :: rest => (d.feed a.now a.line).value.1 :: results (d.feed a.now a.line).value.2 rest

/-- The decoder behind some lines. -/
def after (d : Decoder) : List Arrival → Decoder
  | [] => d
  | a :: rest => after (d.feed a.now a.line).value.2 rest

theorem after_append (d : Decoder) (first second : List Arrival) :
    d.after (first ++ second) = (d.after first).after second := by
  induction first generalizing d with
  | nil => rfl
  | cons a rest ih => exact ih _

theorem results_append (d : Decoder) (first second : List Arrival) :
    d.results (first ++ second) = d.results first ++ (d.after first).results second := by
  induction first generalizing d with
  | nil => rfl
  | cons a rest ih => simp only [List.cons_append, results, after, ih]

/-- Behind any lines a decoder is what their history says. -/
theorem after_new (binCount : Nat) (framing : Framing) (lines : List Arrival) :
    (new binCount framing).after lines =
      ⟨binCount, framing, framing.waiting (lines.map Arrival.line),
        (frames ((new binCount framing).results lines)).length⟩ := by
  induction lines using List.reverseRecOn with
  | nil => simp [after, results, frames, new]
  | append_singleton lines a ih =>
    rw [after_append, results_append, ih, List.map_append]
    simp only [after, results, List.map_cons, List.map_nil, frames_append, List.length_append]
    by_cases opens : framing.Opens a.line
    · rw [value_feed_of_opens, Framing.waiting_concat_mark _ (.inl opens)]
      · rfl
      · exact opens
    by_cases closes : framing.Closes a.line
    · rw [value_feed_of_closes, Framing.waiting_concat_mark _ (.inr closes)]
      exact closes
    · have content : ¬framing.Marks a.line := not_or.mpr ⟨opens, closes⟩
      rw [value_feed_of_not_marks, Framing.waiting_concat_content _ content]
      · rfl
      · exact content

/-- What a line comes to is a function of the lines before it. A closing line reads the payload
that waits, and the frame it makes has the number of the frames before it; any other line makes
nothing. What stood before the last mark, and frames that were rejected, leave no trace. -/
theorem feed_after_new (binCount : Nat) (framing : Framing) (before : List Arrival)
    (a : Arrival) :
    let decoder := (new binCount framing).after before
    let payload := framing.waiting (before.map Arrival.line)
    let published := (frames ((new binCount framing).results before)).length
    decoder.pendingBytes = payload.utf8ByteSize ∧
    (decoder.feed a.now a.line).value.1 =
      (if framing.Closes a.line then
        (Payload.parse payload binCount).map fun values => some ⟨published, values, a.now⟩
      else .ok none) ∧
    decoder = { new binCount framing with pending := payload, published := published } := by
  intro decoder payload published
  have state : decoder = ⟨binCount, framing, payload, published⟩ :=
    after_new binCount framing before
  refine ⟨by rw [state]; rfl, ?_, state⟩
  rw [state]
  by_cases closes : framing.Closes a.line
  · rw [if_pos closes, value_feed_of_closes]
    · rfl
    · exact closes
  · rw [if_neg closes]
    by_cases opens : framing.Opens a.line
    · rw [value_feed_of_opens]
      exact opens
    · rw [value_feed_of_not_marks]
      exact not_or.mpr ⟨opens, closes⟩

example : Framing.device.waiting ["7", "FFT_DATA_START", "CORR:1,", " CORR:2\r"] = "1,2" := by
  decide

end Decoder

end SpectrumViewer
