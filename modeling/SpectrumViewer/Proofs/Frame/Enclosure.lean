import SpectrumViewer.Proofs.Frame.History
import SpectrumViewer.Settings.Basic

set_option autoImplicit false

/-!
What stands between marks. A decoder does not remember whether a frame was opened: it publishes what
waits when a closing line comes. So a frame stands between its marks exactly if an opening line came
last of all marks, or else nothing that could be read waits (`enclosed_iff`); a number that no
opening line announced is published (`feed_unopened`). A device that is silent between its frames is
safe (`enclosed_of_silent`).
-/

namespace SpectrumViewer

namespace Framing

/-- One of these lines opens a frame, and behind it comes no mark but only `body`. -/
def Opened (framing : Framing) (lines body : List String) : Prop :=
  ∃ earlier opening, lines = earlier ++ opening :: body ∧ framing.Opens opening ∧
    ∀ line ∈ body, ¬framing.Marks line

theorem Opened.waiting_eq {framing : Framing} {lines body : List String}
    (h : framing.Opened lines body) :
    framing.waiting lines = String.join (body.map framing.content) := by
  obtain ⟨earlier, opening, rfl, opens, contents⟩ := h
  induction body using List.reverseRecOn with
  | nil => exact waiting_concat_mark earlier (.inl opens)
  | append_singleton body line ih =>
    have last : ¬framing.Marks line := contents line (by simp)
    have others : ∀ line ∈ body, ¬framing.Marks line := fun line among =>
      contents line (List.mem_append_left _ among)
    rw [← List.cons_append, ← List.append_assoc, waiting_concat_content _ last, ih others,
      List.map_append, String.join_append]
    simp

theorem Opened.concat {framing : Framing} {lines body : List String} {line : String}
    (h : framing.Opened lines body) (content : ¬framing.Marks line) :
    framing.Opened (lines ++ [line]) (body ++ [line]) := by
  obtain ⟨earlier, opening, rfl, opens, contents⟩ := h
  refine ⟨earlier, opening, by simp, opens, ?_⟩
  intro other among
  rcases List.mem_append.mp among with inside | last
  · exact contents other inside
  · rwa [List.mem_singleton.mp last]

theorem waiting_of_silent {framing : Framing} {lines : List String}
    (silent : ∀ earlier line later, lines = earlier ++ line :: later → ¬framing.Marks line →
      framing.content line = "" ∨ ∃ body, framing.Opened earlier body) :
    framing.waiting lines = "" ∨ ∃ body, framing.Opened lines body := by
  induction lines using List.reverseRecOn with
  | nil => exact Or.inl framing.waiting_nil
  | append_singleton lines line ih =>
    have before := ih fun earlier other later split =>
      silent earlier other (later ++ [line]) (by rw [split]; simp)
    by_cases opens : framing.Opens line
    · exact Or.inr ⟨[], lines, line, rfl, opens, List.forall_mem_nil _⟩
    by_cases closes : framing.Closes line
    · exact Or.inl (waiting_concat_mark lines (.inr closes))
    have content : ¬framing.Marks line := not_or.mpr ⟨opens, closes⟩
    rcases before with nothing | ⟨body, opened⟩
    · rcases silent lines line [] rfl content with empty | ⟨body, opened⟩
      · left
        rw [waiting_concat_content lines content, nothing, empty]
        rfl
      · exact Or.inr ⟨body ++ [line], opened.concat content⟩
    · exact Or.inr ⟨body ++ [line], opened.concat content⟩

end Framing

namespace Decoder

/-- If a line publishes a frame, then that stands between its marks: behind the last opening line
there came no mark but only `body`, and its contents alone make the values of the frame. -/
def Enclosed (binCount : Nat) (framing : Framing) (before : List Arrival) (a : Arrival) : Prop :=
  ∀ frame, (((new binCount framing).after before).feed a.now a.line).value.1 = .ok (some frame) →
    ∃ body, framing.Opened (before.map Arrival.line) body ∧
      Payload.parse (String.join (body.map framing.content)) binCount = .ok frame.values

theorem feed_closes_after_new {binCount : Nat} {framing : Framing} {line : String}
    (before : List Arrival) (now : String) (closes : framing.Closes line) :
    (((new binCount framing).after before).feed now line).value.1 =
      (Payload.parse (framing.waiting (before.map Arrival.line)) binCount).map fun values =>
        some ⟨(frames ((new binCount framing).results before)).length, values, now⟩ := by
  rw [after_new, value_feed_of_closes]
  · rfl
  · exact closes

theorem parse_of_published {binCount : Nat} {framing : Framing} {before : List Arrival}
    {now line : String} {frame : Frame} (closes : framing.Closes line)
    (published : (((new binCount framing).after before).feed now line).value.1 =
      .ok (some frame)) :
    Payload.parse (framing.waiting (before.map Arrival.line)) binCount = .ok frame.values := by
  rw [feed_closes_after_new before now closes] at published
  cases read : Payload.parse (framing.waiting (before.map Arrival.line)) binCount with
  | error e =>
    rw [read] at published
    cases published
  | ok values =>
    rw [read] at published
    cases published
    rfl

theorem enclosed_of_opened {binCount : Nat} {framing : Framing} {before : List Arrival}
    {a : Arrival} (closes : framing.Closes a.line) {body : List String}
    (opened : framing.Opened (before.map Arrival.line) body) :
    Enclosed binCount framing before a := by
  intro frame published
  have read := parse_of_published closes published
  rw [opened.waiting_eq] at read
  exact ⟨body, opened, read⟩

/-- The frame that a closing line publishes stands between its marks exactly if an opening line was
the last mark before it. Otherwise it must not be published, so what waits must not be readable. -/
theorem enclosed_iff (binCount : Nat) (framing : Framing) (before : List Arrival) (a : Arrival)
    (closes : framing.Closes a.line) :
    Enclosed binCount framing before a ↔
      (∃ body, framing.Opened (before.map Arrival.line) body) ∨
        ∀ values,
          Payload.parse (framing.waiting (before.map Arrival.line)) binCount ≠ .ok values := by
  constructor
  · intro enclosed
    rw [or_iff_not_imp_right, not_forall_not]
    rintro ⟨values, read⟩
    obtain ⟨body, opened, -⟩ := enclosed _ (by
      rw [feed_closes_after_new before a.now closes, read]
      rfl)
    exact ⟨body, opened⟩
  · rintro (⟨body, opened⟩ | unread)
    · exact enclosed_of_opened closes opened
    · intro frame published
      exact absurd (parse_of_published closes published) (unread frame.values)

/-- Noise before a frame is thrown away by its opening line. -/
theorem enclosed_iff_noise :
    Framing.device.Closes "FFT_DATA_END" ∧
    Enclosed 1 .device [⟨"a", "7"⟩, ⟨"b", "FFT_DATA_START"⟩, ⟨"c", "CORR:1"⟩]
      ⟨"d", "FFT_DATA_END"⟩ := by
  have closes : Framing.device.Closes "FFT_DATA_END" := by decide
  refine ⟨closes, (enclosed_iff 1 .device _ ⟨"d", "FFT_DATA_END"⟩ closes).mpr ?_⟩
  exact Or.inl ⟨["CORR:1"], ["7"], "FFT_DATA_START", rfl, by decide, by decide⟩

/-- A number that no opening line announced is published. -/
theorem feed_unopened :
    (0 < 1 ∧ Settings.standard.Accepted ∧ Settings.standard.framing.Closes "FFT_DATA_END") ∧
    (((new 1 Settings.standard.framing).after [⟨"a", "7"⟩]).feed "b" "FFT_DATA_END").value.1 =
      .ok (some ⟨0, [7], "b"⟩) ∧
    ¬Enclosed 1 Settings.standard.framing [⟨"a", "7"⟩] ⟨"b", "FFT_DATA_END"⟩ := by
  have closes : Settings.standard.framing.Closes "FFT_DATA_END" := by decide
  have published :
      (((new 1 Settings.standard.framing).after [⟨"a", "7"⟩]).feed "b" "FFT_DATA_END").value.1 =
        .ok (some ⟨0, [7], "b"⟩) := by
    rw [feed_closes_after_new _ _ closes]
    decide +kernel
  refine ⟨⟨Nat.one_pos, by decide, closes⟩, published, ?_⟩
  intro enclosed
  obtain ⟨body, ⟨earlier, opening, split, opens, -⟩, -⟩ := enclosed _ published
  have only : opening ∈ ["7"] := by
    rw [show ["7"] = earlier ++ opening :: body from split]
    exact List.mem_append_right _ List.mem_cons_self
  rw [List.mem_singleton.mp only] at opens
  exact absurd opens (by decide)

/-- From a device that is silent between its frames come only frames that stand between marks. -/
theorem enclosed_of_silent {binCount : Nat} {framing : Framing} {before : List Arrival}
    {a : Arrival} (positive : 0 < binCount) (closes : framing.Closes a.line)
    (silent : ∀ earlier line later, before.map Arrival.line = earlier ++ line :: later →
      ¬framing.Marks line → framing.content line = "" ∨ ∃ body, framing.Opened earlier body) :
    Enclosed binCount framing before a := by
  rcases Framing.waiting_of_silent silent with nothing | ⟨body, opened⟩
  · intro frame published
    have read := parse_of_published closes published
    have none : Payload.tokens "".toList = [] := rfl
    rw [nothing, Payload.parse, none] at read
    rw [if_neg (by exact positive.ne)] at read
    cases read
  · exact enclosed_of_opened closes opened

end Decoder

end SpectrumViewer
