import SpectrumViewer.Proofs.Input.Steps

set_option autoImplicit false

/-!
What the pump still does once it was asked to stop. It looks for the request only between two
readings, so it first ends the reading that is under way, and hands on the line that comes of it;
then it halts, without reading again (`pump_asked`). A failure of that reading is the only one that
it still reports.
-/

namespace SpectrumViewer

open ByteSource

namespace ByteSource

theorem readScript_stopping (line : List UInt8) (script : List ReadEvent) :
    (readScript line true script).stopping = true := by
  induction script generalizing line with
  | nil => rfl
  | cons event script ih =>
    cases event with
    | octets bytes =>
      rw [readScript]
      split
      · rfl
      · exact ih _
    | failure kind message =>
      cases kind with
      | interrupted => exact ih line
      | timedOut => rfl
      | other => rfl
    | endOfInput => rfl
    | stopRequest => exact ih line

theorem readLine_stopping (source : ByteSource) (line : List UInt8) :
    (source.readLine line true).stopping = true := by
  unfold readLine
  split
  · rfl
  · exact readScript_stopping _ _

end ByteSource

namespace Pump

namespace Moment

def ask (m : Moment) : Moment := { m with stopping := true }

/-- How the reading that is under way will end. -/
def underWay? (m : Moment) : Option LineRead :=
  match m.stage with
  | .searching _ => some (m.source.readLine m.line m.stopping)
  | .calling _ => some (readScript m.line m.stopping m.source.script)
  | _ => none

/-- After so many steps the pump has halted with a result, and has handed on lines on the way. -/
structure Halts (now : String) (m : Moment) (n : Nat) (lines : List (List UInt8))
    (result : Except ReadError Unit) : Prop where
  stage : (steps now n m).value.stage = .halted result
  handed : (steps now n m).value.handed = m.handed ++ lines
  receiver : (steps now n m).value.receiver = (deliverAll now m.receiver lines).value

variable {now : String} {m : Moment} {begun n : Nat} {lines : List (List UInt8)}
  {result : Except ReadError Unit}

theorem Halts.later {next : Moment} {i : Nat} (reached : steps now i m = pure next)
    (handed : next.handed = m.handed) (receiver : next.receiver = m.receiver)
    (halts : Halts now next n lines result) : Halts now m (i + n) lines result := by
  obtain ⟨stage, added, delivered⟩ := halts
  rw [handed] at added
  rw [receiver] at delivered
  constructor <;> rw [steps_of_pure reached] <;> assumption

theorem halts_looking (now : String) (asked : m.stopping = true) (looking : m.stage = .looking) :
    Halts now m 1 [] (.ok ()) := by
  have once : steps now 1 m = m.halt <$> stop m.toState := by
    rw [steps_one, step, looking]
    exact if_pos asked
  constructor
  · rw [once]
    rfl
  · rw [once, List.append_nil]
    rfl
  · rw [once]
    rfl

theorem halts_handing (now : String) (asked : m.stopping = true) (handing : m.stage = .handing) :
    Halts now m 2 [m.line] (.ok ()) := by
  let next (receiver : Receiver) : Moment :=
    { m with receiver, line := [], stage := .looking, handed := m.handed ++ [m.line] }
  have twice : steps now 2 m = deliver now m.receiver m.line >>= fun r => steps now 1 (next r) := by
    rw [steps, step, handing, bind_map_left]
  obtain ⟨stage, added, delivered⟩ :=
    halts_looking now (m := next (deliver now m.receiver m.line).value) asked rfl
  constructor
  · rw [twice, Logged.value_bind, stage]
  · rw [twice, Logged.value_bind, added, List.append_nil]
  · rw [twice, Logged.value_bind, delivered, deliverAll_cons, Logged.value_bind]

theorem value_finish (s : State) (stopping : Bool) :
    (finish now s stopping).value =
      ⟨.ok (), (deliverAll now s.receiver (if s.line = [] then [] else [s.line])).value,
        stopping⟩ := by
  unfold finish
  split
  · rfl
  · simp only [deliverAll_cons, deliverAll_nil, bind_pure, Logged.value_bind, Logged.value_pure]

theorem halts_ending (now : String) (ending : m.stage = .ending) :
    Halts now m 1 (if m.line = [] then [] else [m.line]) (.ok ()) := by
  have once : steps now 1 m = _ := steps_one
  rw [step, ending] at once
  constructor
  · rw [once, Logged.value_map, value_finish]
    rfl
  · rw [once, Logged.value_map]
  · rw [once, Logged.value_map, value_finish]
    rfl

/-- Outside of a reading one line at most is left to be handed on. -/
theorem exists_halts_of_none (now : String) (asked : m.stopping = true)
    (between : m.underWay? = none) :
    ∃ n lines result, Halts now m n lines result ∧ lines.length ≤ 1 ∧
      (result = .ok () ∨ m.stage = .halted result) := by
  cases stage : m.stage with
  | looking => exact ⟨1, [], _, halts_looking now asked stage, Nat.zero_le 1, Or.inl rfl⟩
  | searching begun =>
    rw [underWay?, stage] at between
    cases between
  | calling begun =>
    rw [underWay?, stage] at between
    cases between
  | handing => exact ⟨2, [m.line], _, halts_handing now asked stage, Nat.le_refl _, Or.inl rfl⟩
  | ending =>
    refine ⟨1, _, _, halts_ending now stage, ?_, Or.inl rfl⟩
    split
    · exact Nat.zero_le 1
    · exact Nat.le_refl 1
  | halted result =>
    exact ⟨0, [], result, ⟨stage, (List.append_nil _).symm, rfl⟩, Nat.zero_le 1, Or.inr rfl⟩

/-- A reading ends outside of itself, and halts the pump only by a failure. -/
theorem underWay?_after (begun calls : Nat) (m : Moment) (read : LineRead) :
    (m.after begun read calls).underWay? = none ∧
      ∀ result, (m.after begun read calls).stage = .halted result →
        ∃ reason, read.ending = .failed reason ∧ result = .error ⟨reason⟩ := by
  obtain ⟨ending, line, source, stopping⟩ := read
  cases ending with
  | lineFeed => exact ⟨rfl, fun _ halted => by cases halted⟩
  | timedOut => exact ⟨rfl, fun _ halted => by cases halted⟩
  | failed reason =>
    refine ⟨rfl, fun result halted => ⟨reason, rfl, ?_⟩⟩
    cases halted
    rfl
  | endOfInput =>
    by_cases grown : begun < line.length
    · simp [after, underWay?, grown]
    · simp [after, underWay?, grown]

theorem exists_halts_of_after (now : String) {read : LineRead} (asked : read.stopping = true)
    (reached : ∃ i calls, steps now i m = pure (m.after begun read calls)) :
    ∃ n lines result, Halts now m n lines result ∧ lines.length ≤ 1 ∧
      (result = .ok () ∨ ∃ reason, read.ending = .failed reason ∧ result = .error ⟨reason⟩) := by
  obtain ⟨i, calls, reached⟩ := reached
  obtain ⟨between, failed⟩ := underWay?_after begun calls m read
  obtain ⟨n, lines, result, halts, few, cause⟩ := exists_halts_of_none now asked between
  exact ⟨i + n, lines, result, halts.later reached rfl rfl, few, cause.imp_right (failed result)⟩

theorem exists_halts (now : String) (asked : m.stopping = true) :
    ∃ n lines result, Halts now m n lines result ∧ lines.length ≤ 1 ∧
      (result = .ok () ∨ m.stage = .halted result ∨
        ∃ read ∈ m.underWay?, ∃ reason,
          read.ending = .failed reason ∧ result = .error ⟨reason⟩) := by
  by_cases between : m.underWay? = none
  · obtain ⟨n, lines, result, halts, few, cause⟩ := exists_halts_of_none now asked between
    exact ⟨n, lines, result, halts, few, cause.imp_right Or.inl⟩
  obtain ⟨read, under⟩ := Option.ne_none_iff_exists'.mp between
  have reading : read.stopping = true ∧
      ∃ begun i calls, steps now i m = pure (m.after begun read calls) := by
    cases stage : m.stage with
    | searching begun =>
      rw [underWay?, stage] at under
      cases under
      refine ⟨?_, begun, exists_steps_searching now stage⟩
      rw [asked]
      exact readLine_stopping _ _
    | calling begun =>
      rw [underWay?, stage] at under
      cases under
      refine ⟨?_, begun, exists_steps_calling now stage⟩
      rw [asked]
      exact readScript_stopping _ _
    | looking | handing | ending | halted =>
      rw [underWay?, stage] at under
      cases under
  obtain ⟨asked, begun, reached⟩ := reading
  obtain ⟨n, lines, result, halts, few, cause⟩ := exists_halts_of_after now asked reached
  exact ⟨n, lines, result, halts, few, cause.imp_right fun failed => Or.inr ⟨read, under, failed⟩⟩

end Moment

end Pump

open Pump Moment

/-- From the moment on at which the pump is asked to stop, however many steps it has taken, it comes
to a halt, and hands on one line at most. It returns without an error, unless it had returned
before, or the reading that is under way at that moment fails. Asked before its first step it hands
on nothing and reads nothing. -/
theorem Receiver.pump_asked (receiver : Receiver) (now : String) (script : List ReadEvent)
    (stopping : Bool) (taken : Nat) :
    (∃ n, halt? <$> steps now n (start receiver script stopping) =
      some <$> receiver.pump now script stopping) ∧
    (∃ n, (steps now n (start receiver script true)).value =
      { start receiver script true with stage := .halted (.ok ()) }) ∧
    let m := (steps now taken (start receiver script stopping)).value.ask
    ∃ n lines result, Halts now m n lines result ∧ lines.length ≤ 1 ∧
      (result = .ok () ∨ m.stage = .halted result ∨
        ∃ read ∈ m.underWay?, ∃ reason, read.ending = .failed reason ∧
          result = .error ⟨reason⟩) := by
  refine ⟨exists_steps_run now rfl, ⟨1, rfl⟩, exists_halts now rfl⟩

end SpectrumViewer
