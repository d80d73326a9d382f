import Mathlib.Algebra.GroupWithZero.Nat
import SpectrumViewer.Input.Receiver
import SpectrumViewer.Proofs.Frame.History

set_option autoImplicit false

/-!
The books of a receiver. Lines are handled and frames are taken in any order. A line comes to one of
three things, and only a closing line to more than waiting (`Decoder.feed_cases`); what each of them
and a pickup write into the books keeps them balanced (`Balanced.step`), so every frame that was
accepted was taken, replaced or is still unread (`run_accounted`).
-/

namespace SpectrumViewer

theorem Payload.length_of_magnitudesFrom {index : Nat} {tokens : List (List Char)}
    {values : List Binary32} (h : magnitudesFrom index tokens = .ok values) :
    values.length = tokens.length := by
  induction tokens generalizing index values with
  | nil =>
    cases h
    rfl
  | cons token rest ih =>
    rw [magnitudesFrom] at h
    cases first : magnitude? token with
    | none =>
      rw [first] at h
      cases h
    | some value =>
      cases others : magnitudesFrom (index + 1) rest with
      | error e =>
        rw [first, others] at h
        cases h
      | ok later =>
        rw [first, others] at h
        cases h
        exact congrArg (· + 1) (ih others)

theorem Payload.length_of_parse {payload : String} {expected : Nat} {values : List Binary32}
    (h : parse payload expected = .ok values) : values.length = expected := by
  rw [parse] at h
  by_cases count : (tokens payload.toList).length = expected
  · rw [if_pos count] at h
    exact (length_of_magnitudesFrom h).trans count
  · rw [if_neg count] at h
    cases h

/-- The three things that a line can come to. Only a closing line makes a frame or an error, and a
frame has the next number and as many values as there are bins. -/
theorem Decoder.feed_cases (d : Decoder) (now line : String) :
    (¬d.framing.Closes line ∧ ∃ pending,
      (d.feed now line).value = (.ok none, { d with pending })) ∨
    (d.framing.Closes line ∧ ∃ e,
      (d.feed now line).value = (.error e, { d with pending := "" })) ∨
    (d.framing.Closes line ∧ ∃ values, values.length = d.binCount ∧
      (d.feed now line).value = (.ok (some ⟨d.published, values, now⟩),
        { d with pending := "", published := d.published + 1 })) := by
  by_cases closes : d.framing.Closes line
  · rw [value_feed_of_closes d now closes, answer]
    cases read : Payload.parse d.pending d.binCount with
    | error e => exact Or.inr (Or.inl ⟨closes, e, rfl⟩)
    | ok values => exact Or.inr (Or.inr ⟨closes, values, Payload.length_of_parse read, rfl⟩)
  · refine Or.inl ⟨closes, ?_⟩
    by_cases opens : d.framing.Opens line
    · exact ⟨_, value_feed_of_opens d now opens⟩
    · exact ⟨_, value_feed_of_not_marks d now (not_or.mpr ⟨opens, closes⟩)⟩

/-- A call to a receiver, or to its mailbox from the other side. -/
inductive Call where
  | handle (a : Arrival)
  | take

/-- What a call came to. With the outcome of a line go the frame that the decoder made of it and
the number of unread frames that its publication replaced. -/
inductive Entry where
  | handled (outcome : Outcome) (frame : Option Frame) (replaced : Nat)
  | taken (frame : Option Frame)

namespace Entry

def isTaken : Entry → Bool
  | handled .. => false
  | taken _ => true

def outcome? : Entry → Option Outcome
  | handled outcome _ _ => some outcome
  | taken _ => none

def published? : Entry → Option Frame
  | handled _ frame _ => frame
  | taken _ => none

def taken? : Entry → Option Frame
  | handled .. => none
  | taken frame => frame

def replaced : Entry → Nat
  | handled _ _ replaced => replaced
  | taken _ => 0

end Entry

def Call.line? : Call → Option String
  | handle a => some a.line
  | take => none

namespace Receiver

/-- The frame that the decoder makes of a line. -/
def made (r : Receiver) (a : Arrival) : Option Frame :=
  match (r.decoder.feed a.now a.line).value.1 with
  | .ok frame => frame
  | .error _ => none

/-- The number of unread frames that the publication of a frame replaces. -/
def replaces (r : Receiver) : Option Frame → Nat
  | none => 0
  | some frame => (r.mailbox.publish frame).value.1

def perform (r : Receiver) : Call → Entry × Receiver
  | .handle a =>
    let (outcome, after) := (r.handleLine a.now a.line).value
    (.handled outcome (r.made a) (r.replaces (r.made a)), after)
  | .take => (.taken r.take.1, r.take.2)

/-- The entries of some calls, with the receiver behind them. -/
def run (r : Receiver) (calls : List Call) : List Entry × Receiver :=
  calls.foldl (fun (entries, r) call =>
    (entries ++ [(r.perform call).1], (r.perform call).2)) ([], r)

theorem run_concat (r : Receiver) (calls : List Call) (call : Call) :
    r.run (calls ++ [call]) =
      ((r.run calls).1 ++ [((r.run calls).2.perform call).1],
        ((r.run calls).2.perform call).2) := by
  rw [run, List.foldl_concat]
  rfl

theorem value_publish (m : Mailbox) (frame : Frame) :
    (m.publish frame).value = (m.unread.toList.length, ⟨some frame⟩) := by
  rcases m with ⟨_ | stale⟩
  · rw [Mailbox.publish_empty]
    rfl
  · rw [Mailbox.publish_unread]
    rfl

section Lines

variable {r : Receiver} {a : Arrival} {now line : String} {decoder : Decoder}

theorem value_handleLine_pending (h : (r.decoder.feed now line).value = (.ok none, decoder)) :
    (r.handleLine now line).value = (.pending,
      { r with decoder, tally := { r.tally with lines := r.tally.lines + 1 } }) := by
  rw [handleLine, Logged.value_bind, h]
  rfl

theorem value_handleLine_rejected {e : PayloadError}
    (h : (r.decoder.feed now line).value = (.error e, decoder)) :
    (r.handleLine now line).value = (.rejected,
      ⟨decoder, r.mailbox, ⟨r.tally.lines + 1, r.tally.accepted, r.tally.rejected + 1⟩⟩) := by
  rw [handleLine, Logged.value_bind, h]
  rfl

theorem value_handleLine_published {frame : Frame}
    (h : (r.decoder.feed now line).value = (.ok (some frame), decoder)) :
    (r.handleLine now line).value = (.published,
      ⟨decoder, ⟨some frame⟩, ⟨r.tally.lines + 1, r.tally.accepted + 1, r.tally.rejected⟩⟩) := by
  simp only [handleLine, Logged.value_bind, h, value_publish]
  cases r.mailbox.unread <;> rfl

theorem perform_of_pending (h : (r.decoder.feed a.now a.line).value = (.ok none, decoder)) :
    r.perform (.handle a) = (.handled .pending none 0,
      { r with decoder, tally := { r.tally with lines := r.tally.lines + 1 } }) := by
  rw [perform, made, h, value_handleLine_pending h]
  rfl

theorem perform_of_rejected {e : PayloadError}
    (h : (r.decoder.feed a.now a.line).value = (.error e, decoder)) :
    r.perform (.handle a) = (.handled .rejected none 0,
      ⟨decoder, r.mailbox, ⟨r.tally.lines + 1, r.tally.accepted, r.tally.rejected + 1⟩⟩) := by
  rw [perform, made, h, value_handleLine_rejected h]
  rfl

theorem perform_of_published {frame : Frame}
    (h : (r.decoder.feed a.now a.line).value = (.ok (some frame), decoder)) :
    r.perform (.handle a) = (.handled .published (some frame) r.mailbox.unread.toList.length,
      ⟨decoder, ⟨some frame⟩, ⟨r.tally.lines + 1, r.tally.accepted + 1, r.tally.rejected⟩⟩) := by
  rw [perform, made, h, value_handleLine_published h, replaces, value_publish]

end Lines

theorem perform_take (r : Receiver) :
    r.perform .take = (.taken r.mailbox.unread, { r with mailbox := .empty }) := by
  rw [perform, take, Mailbox.take_eq]

end Receiver

namespace Entry

def outcomes (entries : List Entry) : List Outcome := entries.filterMap outcome?

def published (entries : List Entry) : List Frame := entries.filterMap published?

def takenFrames (entries : List Entry) : List Frame := entries.filterMap taken?

def replacedCount (entries : List Entry) : Nat := (entries.map replaced).sum

/-- The entries behind the last pickup. -/
def sinceTaken (entries : List Entry) : List Entry := entries.rtakeWhile (!·.isTaken)

@[simp] theorem outcomes_concat (entries : List Entry) (entry : Entry) :
    outcomes (entries ++ [entry]) = outcomes entries ++ entry.outcome?.toList := by
  cases h : entry.outcome? <;> simp [outcomes, h]

@[simp] theorem published_concat (entries : List Entry) (entry : Entry) :
    published (entries ++ [entry]) = published entries ++ entry.published?.toList := by
  cases h : entry.published? <;> simp [published, h]

@[simp] theorem takenFrames_concat (entries : List Entry) (entry : Entry) :
    takenFrames (entries ++ [entry]) = takenFrames entries ++ entry.taken?.toList := by
  cases h : entry.taken? <;> simp [takenFrames, h]

@[simp] theorem replacedCount_concat (entries : List Entry) (entry : Entry) :
    replacedCount (entries ++ [entry]) = replacedCount entries + entry.replaced := by
  simp [replacedCount]

theorem sinceTaken_concat_handled (entries : List Entry) (outcome : Outcome)
    (frame : Option Frame) (count : Nat) :
    sinceTaken (entries ++ [handled outcome frame count]) =
      sinceTaken entries ++ [handled outcome frame count] := by
  rw [sinceTaken, List.rtakeWhile_concat, if_pos (by rfl), sinceTaken]

theorem sinceTaken_concat_taken (entries : List Entry) (frame : Option Frame) :
    sinceTaken (entries ++ [taken frame]) = [] := by
  rw [sinceTaken, List.rtakeWhile_concat, if_neg (by simp [isTaken])]

end Entry

def Call.lines (calls : List Call) : List String := calls.filterMap Call.line?

open Entry

/-- What holds between any two calls to a new receiver. -/
structure Balanced (binCount : Nat) (framing : Framing) (calls : List Call)
    (entries : List Entry) (r : Receiver) : Prop where
  setup : r.decoder.binCount = binCount ∧ r.decoder.framing = framing
  lines : r.tally.lines = (Call.lines calls).length
  closings : r.tally.accepted + r.tally.rejected =
    (Call.lines calls).countP fun line => framing.Closes line
  accepted : r.tally.accepted = (outcomes entries).count .published
  rejected : r.tally.rejected = (outcomes entries).count .rejected
  sequence : r.decoder.published = r.tally.accepted
  numbered : (published entries).map Frame.sequence = List.range r.tally.accepted
  complete : ∀ frame ∈ published entries, frame.values.length = binCount
  conserved : r.tally.accepted =
    (takenFrames entries).length + replacedCount entries + r.mailbox.unread.toList.length
  unread : r.mailbox.unread = (published (sinceTaken entries)).getLast?

namespace Balanced

variable {binCount : Nat} {framing : Framing} {calls : List Call} {entries : List Entry}
  {r : Receiver} {a : Arrival} {decoder : Decoder}

theorem lines_concat (calls : List Call) (a : Arrival) :
    Call.lines (calls ++ [.handle a]) = Call.lines calls ++ [a.line] := by
  simp [Call.lines, Call.line?]

theorem lines_concat_take (calls : List Call) :
    Call.lines (calls ++ [.take]) = Call.lines calls := by
  simp [Call.lines, Call.line?]

theorem closings_concat (closes : framing.Closes a.line) :
    ((Call.lines (calls ++ [.handle a])).countP fun line => framing.Closes line) =
      ((Call.lines calls).countP fun line => framing.Closes line) + 1 := by
  rw [lines_concat, List.countP_append, List.countP_singleton, if_pos (decide_eq_true closes)]

theorem start (binCount : Nat) (framing : Framing) :
    Balanced binCount framing [] [] (.new binCount framing) where
  setup := ⟨rfl, rfl⟩
  lines := rfl
  closings := rfl
  accepted := rfl
  rejected := rfl
  sequence := rfl
  numbered := rfl
  complete := List.forall_mem_nil _
  conserved := rfl
  unread := rfl

theorem pending (h : Balanced binCount framing calls entries r) (waits : ¬framing.Closes a.line)
    (setup : decoder.binCount = binCount ∧ decoder.framing = framing)
    (same : decoder.published = r.decoder.published) :
    Balanced binCount framing (calls ++ [.handle a]) (entries ++ [.handled .pending none 0])
      { r with decoder, tally := { r.tally with lines := r.tally.lines + 1 } } where
  setup := setup
  lines := by simp [lines_concat, h.lines]
  closings := by simpa [lines_concat, waits] using h.closings
  accepted := by simpa [outcome?] using h.accepted
  rejected := by simpa [outcome?] using h.rejected
  sequence := same.trans h.sequence
  numbered := by simpa [published?] using h.numbered
  complete := by simpa [published?] using h.complete
  conserved := by simpa [taken?, replaced] using h.conserved
  unread := by simpa [sinceTaken_concat_handled, published?] using h.unread

theorem refused (h : Balanced binCount framing calls entries r) (closes : framing.Closes a.line)
    (setup : decoder.binCount = binCount ∧ decoder.framing = framing)
    (same : decoder.published = r.decoder.published) :
    Balanced binCount framing (calls ++ [.handle a]) (entries ++ [.handled .rejected none 0])
      ⟨decoder, r.mailbox, ⟨r.tally.lines + 1, r.tally.accepted, r.tally.rejected + 1⟩⟩ where
  setup := setup
  lines := by simp [lines_concat, h.lines]
  closings := by
    rw [closings_concat closes, ← h.closings]
    exact (Nat.add_assoc _ _ 1).symm
  accepted := by simpa [outcome?] using h.accepted
  rejected := by simp [outcome?, h.rejected]
  sequence := same.trans h.sequence
  numbered := by simpa [published?] using h.numbered
  complete := by simpa [published?] using h.complete
  conserved := by simpa [taken?, replaced] using h.conserved
  unread := by simpa [sinceTaken_concat_handled, published?] using h.unread

theorem publish (h : Balanced binCount framing calls entries r) (closes : framing.Closes a.line)
    (setup : decoder.binCount = binCount ∧ decoder.framing = framing)
    (next : decoder.published = r.decoder.published + 1) {frame : Frame}
    (sequence : frame.sequence = r.decoder.published) (length : frame.values.length = binCount) :
    Balanced binCount framing (calls ++ [.handle a])
      (entries ++ [.handled .published (some frame) r.mailbox.unread.toList.length])
      ⟨decoder, ⟨some frame⟩, ⟨r.tally.lines + 1, r.tally.accepted + 1, r.tally.rejected⟩⟩ where
  setup := setup
  lines := by simp [lines_concat, h.lines]
  closings := by
    rw [closings_concat closes, ← h.closings]
    exact Nat.add_right_comm _ 1 _
  accepted := by simp [outcome?, h.accepted]
  rejected := by simpa [outcome?] using h.rejected
  sequence := by rw [next, h.sequence]
  numbered := by
    rw [published_concat, List.map_append, h.numbered, List.range_succ]
    simp [published?, sequence, h.sequence]
  complete := by
    rw [published_concat]
    exact List.forall_mem_append.mpr ⟨h.complete, by simp [published?, length]⟩
  conserved := by
    rw [takenFrames_concat, replacedCount_concat, List.length_append, h.conserved]
    exact congrArg (· + 1) (Nat.add_assoc _ _ _)
  unread := by simp [sinceTaken_concat_handled, published?]

theorem take (h : Balanced binCount framing calls entries r) :
    Balanced binCount framing (calls ++ [.take]) (entries ++ [.taken r.mailbox.unread])
      { r with mailbox := .empty } where
  setup := h.setup
  lines := by rw [lines_concat_take]; exact h.lines
  closings := by rw [lines_concat_take]; exact h.closings
  accepted := by simpa [outcome?] using h.accepted
  rejected := by simpa [outcome?] using h.rejected
  sequence := h.sequence
  numbered := by simpa [published?] using h.numbered
  complete := by simpa [published?] using h.complete
  conserved := by
    rw [takenFrames_concat, replacedCount_concat, List.length_append, h.conserved]
    exact Nat.add_right_comm _ _ _
  unread := by simp [sinceTaken_concat_taken, Mailbox.empty, published]

theorem step (h : Balanced binCount framing calls entries r) (call : Call) :
    Balanced binCount framing (calls ++ [call]) (entries ++ [(r.perform call).1])
      (r.perform call).2 := by
  cases call with
  | take =>
    rw [Receiver.perform_take]
    exact h.take
  | handle a =>
    obtain ⟨bins, marks⟩ := h.setup
    rcases r.decoder.feed_cases a.now a.line with
      ⟨waits, pending, result⟩ | ⟨closes, e, result⟩ | ⟨closes, values, length, result⟩
    · rw [Receiver.perform_of_pending result]
      exact h.pending (marks ▸ waits) ⟨bins, marks⟩ rfl
    · rw [Receiver.perform_of_rejected result]
      exact h.refused (marks ▸ closes) ⟨bins, marks⟩ rfl
    · rw [Receiver.perform_of_published result]
      refine h.publish (marks ▸ closes) ?_ rfl rfl ?_
      · exact ⟨bins, marks⟩
      · exact length.trans bins

theorem run (binCount : Nat) (framing : Framing) (calls : List Call) :
    Balanced binCount framing calls ((Receiver.new binCount framing).run calls).1
      ((Receiver.new binCount framing).run calls).2 := by
  induction calls using List.reverseRecOn with
  | nil => exact start binCount framing
  | append_singleton calls call ih =>
    rw [Receiver.run_concat]
    exact ih.step call

theorem last_of_unread (h : Balanced binCount framing calls entries r) {frame : Frame}
    (unread : r.mailbox.unread = some frame) :
    (published entries).getLast? = some frame ∧ frame.sequence + 1 = r.tally.accepted := by
  obtain ⟨earlier, split⟩ : published (sinceTaken entries) <:+ published entries :=
    (List.rtakeWhile_suffix _ entries).filterMap published?
  have last : (published entries).getLast? = some frame := by
    rw [← split, List.getLast?_append, ← h.unread, unread, Option.some_or]
  refine ⟨last, ?_⟩
  have number : (List.range r.tally.accepted).getLast? = some frame.sequence := by
    rw [← h.numbered, List.getLast?_map, last, Option.map_some]
  cases count : r.tally.accepted with
  | zero =>
    rw [count] at number
    cases number
  | succ count' =>
    rw [count, List.range_succ, List.getLast?_concat] at number
    rw [Option.some.inj number]

end Balanced

/-- What the books of a receiver say behind some calls, and what the next one does to them. -/
structure Accounted (binCount : Nat) (framing : Framing) (calls : List Call)
    (entries : List Entry) (r : Receiver) : Prop where
  lines : r.tally.lines = (Call.lines calls).length
  closings : r.tally.accepted + r.tally.rejected =
    (Call.lines calls).countP fun line => Text.trim line = framing.closing
  accepted : r.tally.accepted = (outcomes entries).count .published
  rejected : r.tally.rejected = (outcomes entries).count .rejected
  numbered : (published entries).map Frame.sequence = List.range r.tally.accepted
  complete : ∀ frame ∈ published entries, frame.values.length = binCount
  /-- No frame is lost without being counted. -/
  conserved : r.tally.accepted =
    (takenFrames entries).length + replacedCount entries + r.mailbox.unread.toList.length
  /-- A pickup finds a frame exactly if one was published since the last pickup. -/
  taking : r.take.1.isSome ↔ published (sinceTaken entries) ≠ []
  newest : ∀ frame, r.take.1 = some frame →
    (published entries).getLast? = some frame ∧ frame.sequence + 1 = r.tally.accepted
  /-- A line that publishes nothing leaves alone what was published. -/
  isolated : ∀ now line, (r.handleLine now line).value.1 ≠ .published →
    let after := (r.handleLine now line).value.2
    after.tally.accepted = r.tally.accepted ∧ after.mailbox = r.mailbox ∧
      after.decoder.published = r.decoder.published

theorem Receiver.handleLine_isolated {r : Receiver} {now line : String}
    (silent : (r.handleLine now line).value.1 ≠ .published) :
    let after := (r.handleLine now line).value.2
    after.tally.accepted = r.tally.accepted ∧ after.mailbox = r.mailbox ∧
      after.decoder.published = r.decoder.published := by
  rcases r.decoder.feed_cases now line with
    ⟨-, pending, result⟩ | ⟨-, e, result⟩ | ⟨-, values, -, result⟩
  · rw [value_handleLine_pending result]
    exact ⟨rfl, rfl, rfl⟩
  · rw [value_handleLine_rejected result]
    exact ⟨rfl, rfl, rfl⟩
  · rw [value_handleLine_published result] at silent
    exact absurd rfl silent

/-- Whatever lines come and whenever frames are taken, the books of a new receiver are right. -/
theorem Receiver.run_accounted (binCount : Nat) {framing : Framing}
    (differ : framing.opening ≠ framing.closing) (calls : List Call) :
    Accounted binCount framing calls ((new binCount framing).run calls).1
      ((new binCount framing).run calls).2 := by
  have h := Balanced.run binCount framing calls
  have closes_iff (line : String) :
      framing.Closes line ↔ Text.trim line = framing.closing := by
    refine ⟨And.right, fun same => ⟨fun opens => differ ?_, same⟩⟩
    rw [← opens, same]
  refine ⟨h.lines, ?_, h.accepted, h.rejected, h.numbered, h.complete, h.conserved, ?_, ?_, ?_⟩
  · rw [h.closings]
    simp only [closes_iff]
  · rw [take, Mailbox.take_fst, h.unread, List.getLast?_isSome]
  · intro frame found
    rw [take, Mailbox.take_fst] at found
    exact h.last_of_unread found
  · intro now line silent
    exact handleLine_isolated silent

/-- Noise, a good frame, one with a value too few, one that replaces an unread frame, and pickups
with and without a frame. -/
theorem Receiver.run_accounted_mixed :
    let calls : List Call := [.handle ⟨"a", "noise"⟩, .handle ⟨"b", "FFT_DATA_START"⟩,
      .handle ⟨"c", "CORR:1,2"⟩, .handle ⟨"d", "FFT_DATA_END"⟩, .handle ⟨"e", "3"⟩,
      .handle ⟨"f", " FFT_DATA_END\r"⟩, .handle ⟨"g", "3,4,"⟩, .handle ⟨"h", "FFT_DATA_END"⟩,
      .take, .take]
    Framing.device.opening ≠ Framing.device.closing ∧
    ((new 2 .device).run calls).2.tally = ⟨8, 2, 1⟩ ∧
    takenFrames ((new 2 .device).run calls).1 = [⟨1, [3, 4], "h"⟩] ∧
    replacedCount ((new 2 .device).run calls).1 = 1 ∧
    Accounted 2 .device calls ((new 2 .device).run calls).1 ((new 2 .device).run calls).2 := by
  intro calls
  exact ⟨by decide, by decide +kernel, by decide +kernel, by decide +kernel,
    run_accounted 2 (by decide) calls⟩

end SpectrumViewer
