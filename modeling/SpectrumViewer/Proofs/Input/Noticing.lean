import SpectrumViewer.Proofs.Input.Stopping

set_option autoImplicit false

/-!
How often the pump still calls the source once it was asked to stop. The request is looked for
between two readings, and a reading calls the source until its line is complete. So a request that
is raised during a call is noticed before the next one exactly if that call ends the reading; else
the pump calls on for as long as the line goes on (`pump_asked_in_call`). A device that never sends
a line feed is read for ever.
-/

namespace SpectrumViewer

open ByteSource

namespace ReadEvent

/-- What a call meets, if the script goes on. A request to stop is raised while it waits. -/
def met? (script : List ReadEvent) : Option ReadEvent := script.find? (· ≠ .stopRequest)

theorem callsToEnd_pos (script : List ReadEvent) : 0 < callsToEnd script := by
  fun_induction callsToEnd script with
  | case1 => exact Nat.one_pos
  | case2 script ih => exact ih
  | case3 => exact Nat.one_pos
  | case4 => exact Nat.succ_pos _

theorem callsToEnd_le_one_iff (script : List ReadEvent) :
    callsToEnd script ≤ 1 ↔ ∀ event ∈ met? script, event.EndsReading := by
  induction script with
  | nil => exact iff_of_true (Nat.le_refl 1) nofun
  | cons event script ih =>
    by_cases request : event = .stopRequest
    · subst request
      exact ih
    have met : met? (event :: script) = some event :=
      List.find?_cons_of_pos (decide_eq_true request)
    rw [met]
    by_cases ends : event.EndsReading
    · rw [callsToEnd_of_ends script ends]
      refine iff_of_true (Nat.le_refl 1) fun other same => ?_
      cases same
      exact ends
    · have more := callsToEnd_pos script
      rw [callsToEnd_of_not_ends script ends request]
      exact iff_of_false (by omega) fun all => ends (all event rfl)

end ReadEvent

namespace Pump

namespace Moment

/-- The pump was asked to stop, and no reading is under way. -/
structure Resting (m : Moment) : Prop where
  asked : m.stopping = true
  between : m.underWay? = none

variable {now : String} {m : Moment}

theorem calls_le_call (begun : Nat) (m : Moment) : m.calls ≤ (m.call begun).calls := by
  unfold call
  split
  · exact Nat.le_refl _
  all_goals exact Nat.le_succ _

theorem calls_le_step (now : String) (m : Moment) : m.calls ≤ (step now m).value.calls := by
  unfold step
  split
  · split
    · exact Nat.le_refl _
    · exact Nat.le_refl _
  · split
    · exact Nat.le_refl _
    · exact Nat.le_refl _
  · exact calls_le_call _ m
  · exact Nat.le_refl _
  · exact Nat.le_refl _
  · exact Nat.le_refl _

theorem calls_le_steps (now : String) (n : Nat) (m : Moment) :
    m.calls ≤ (steps now n m).value.calls := by
  induction n generalizing m with
  | zero => exact Nat.le_refl _
  | succ n ih => exact Nat.le_trans (calls_le_step now m) (ih _)

/-- Without a reading under way, the pump that was asked to stop begins none. -/
theorem Resting.step (resting : m.Resting) (now : String) :
    (step now m).value.Resting ∧ (step now m).value.calls = m.calls := by
  obtain ⟨asked, between⟩ := resting
  rw [Moment.step]
  cases stage : m.stage with
  | looking =>
    dsimp only
    rw [if_pos asked]
    exact ⟨⟨rfl, rfl⟩, rfl⟩
  | searching begun =>
    rw [underWay?, stage] at between
    cases between
  | calling begun =>
    rw [underWay?, stage] at between
    cases between
  | handing => exact ⟨⟨asked, rfl⟩, rfl⟩
  | ending =>
    refine ⟨⟨?_, rfl⟩, rfl⟩
    rw [Logged.value_map, value_finish]
    exact asked
  | halted result =>
    refine ⟨⟨asked, ?_⟩, rfl⟩
    rw [underWay?, Logged.value_pure, stage]

theorem Resting.calls_steps (resting : m.Resting) (now : String) (n : Nat) :
    (steps now n m).value.calls = m.calls := by
  induction n generalizing m with
  | zero => rfl
  | succ n ih =>
    obtain ⟨still, same⟩ := resting.step now
    exact (ih still).trans same

/-- Once the pump rests it has made all its calls. -/
theorem Resting.calls_steps_le {next : Moment} (resting : next.Resting) {i : Nat}
    (reached : steps now i m = pure next) (n : Nat) : (steps now n m).value.calls ≤ next.calls := by
  have later : (steps now (n + i) m).value.calls = next.calls := by
    rw [Nat.add_comm, steps_of_pure reached, resting.calls_steps]
  rw [← later, steps_add]
  exact calls_le_steps now i _

theorem resting_after {begun calls : Nat} {read : LineRead} (asked : read.stopping = true) :
    (m.after begun read calls).Resting :=
  ⟨asked, (underWay?_after begun calls m read).1⟩

end Moment

end Pump

open Pump Moment

/-- When the pump is asked to stop while it calls the source, it calls it until the reading is
ended, and halts after that. So this call is the last one exactly if what it meets ends the reading:
a line feed, a timeout, a failure other than an interruption, or the end. -/
theorem Receiver.pump_asked_in_call (receiver : Receiver) (now : String) (script : List ReadEvent)
    (stopping : Bool) (taken begun : Nat)
    (calling : (steps now taken (start receiver script stopping)).value.stage = .calling begun) :
    (∃ n, halt? <$> steps now n (start receiver script stopping) =
      some <$> receiver.pump now script stopping) ∧
    let m := (steps now taken (start receiver script stopping)).value.ask
    (∃ n result, (steps now n m).value.stage = .halted result ∧
      (steps now n m).value.calls = m.calls + ReadEvent.callsToEnd m.source.script) ∧
    ((∀ n, (steps now n m).value.calls ≤ m.calls + 1) ↔
      ∀ event ∈ ReadEvent.met? m.source.script, event.EndsReading) := by
  refine ⟨exists_steps_run now rfl, ?_⟩
  intro m
  obtain ⟨i, reached⟩ := exists_steps_callsToEnd now (m := m) calling
  have resting : (m.after begun (readScript m.line true m.source.script)
      (m.calls + ReadEvent.callsToEnd m.source.script)).Resting :=
    resting_after (readScript_stopping m.line m.source.script)
  have total (n : Nat) : (steps now (i + n) m).value.calls =
      m.calls + ReadEvent.callsToEnd m.source.script := by
    rw [steps_of_pure reached]
    exact resting.calls_steps now n
  constructor
  · obtain ⟨n, lines, result, halts, -⟩ := exists_halts_of_none now resting.asked resting.between
    refine ⟨i + n, result, ?_, total n⟩
    rw [steps_of_pure reached]
    exact halts.stage
  · rw [← ReadEvent.callsToEnd_le_one_iff]
    constructor
    · intro few
      have all := few (i + 0)
      rw [total] at all
      omega
    · intro once n
      exact Nat.le_trans (resting.calls_steps_le reached n) (Nat.add_le_add_left once m.calls)

/-- A timeout lets the pump notice the request; an octet that is no line feed does not. -/
theorem Receiver.pump_asked_in_call_octet :
    let reached (event : ReadEvent) :=
      (steps "" 2 (start (.new 1 .device) [event, .octets [lineFeed]] false)).value
    ((reached (.failure .timedOut "")).stage = .calling 0 ∧
      ∀ n, (steps "" n (reached (.failure .timedOut "")).ask).value.calls ≤ 1) ∧
    (reached (.octets [55])).stage = .calling 0 ∧
      ¬∀ n, (steps "" n (reached (.octets [55])).ask).value.calls ≤ 1 := by
  intro reached
  refine ⟨⟨rfl, ?_⟩, rfl, ?_⟩
  · exact (Receiver.pump_asked_in_call _ _ _ _ 2 0 rfl).2.2.mpr (by decide)
  · intro few
    exact absurd ((Receiver.pump_asked_in_call _ _ _ _ 2 0 rfl).2.2.mp few) (by decide)

/-- The request is raised during the second call, and the pump calls the source once more and
publishes a frame with what it takes. -/
theorem Receiver.pump_calls_on :
    let m (taken : Nat) := (steps "" taken (start (.new 1 ⟨"S", "E", none⟩)
      [.octets [83, 10, 55, 10], .stopRequest, .octets [69], .octets [10]] false)).value
    (m 10).stage = .calling 0 ∧ (m 10).calls = 1 ∧ (m 10).source.script.head? = some .stopRequest ∧
      (m 12).calls = 2 ∧ (m 12).stopping = true ∧
      (m 15).calls = 3 ∧ (m 17).stage = .halted (.ok ()) ∧
      (m 17).receiver.mailbox.unread = some ⟨0, [7], ""⟩ := by
  intro m
  exact ⟨rfl, rfl, rfl, rfl, rfl, rfl, rfl, by decide +kernel⟩

end SpectrumViewer
