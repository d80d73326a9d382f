import SpectrumViewer.Proofs.Input.Lines

set_option autoImplicit false

/-!
The pump one step at a time. A step looks for the request to stop, searches the buffer, calls the
source once, or hands on a line, so that something else can happen between any two of them. Left to
itself the pump comes by these steps to what it comes to at once (`exists_steps_run`).
-/

namespace SpectrumViewer

open ByteSource

namespace ByteSource

theorem prefix_readScript (line : List UInt8) (stopping : Bool) (script : List ReadEvent) :
    line <+: (readScript line stopping script).line := by
  fun_induction readScript line stopping script with
  | case1 | case5 | case6 | case7 => exact List.prefix_rfl
  | case2 line stopping bytes script piece => exact List.prefix_append line piece
  | case3 line stopping bytes script _ ih => exact (List.prefix_append line bytes).trans ih
  | case4 _ _ _ _ ih | case8 _ _ _ ih => exact ih

theorem prefix_readLine (source : ByteSource) (line : List UInt8) (stopping : Bool) :
    line <+: (source.readLine line stopping).line := by
  unfold readLine
  split
  · exact List.prefix_append line _
  · exact (List.prefix_append line source.buffered).trans (prefix_readScript _ _ _)

end ByteSource

namespace ReadEvent

/-- A call that meets the event is the last one of a reading. -/
def EndsReading : ReadEvent → Prop
  | .octets bytes => lineFeed ∈ bytes
  | .failure kind _ => kind ≠ .interrupted
  | .endOfInput => True
  | .stopRequest => False

instance (event : ReadEvent) : Decidable event.EndsReading :=
  match event with
  | .octets bytes => inferInstanceAs (Decidable (lineFeed ∈ bytes))
  | .failure kind _ => inferInstanceAs (Decidable (kind ≠ .interrupted))
  | .endOfInput => inferInstanceAs (Decidable True)
  | .stopRequest => inferInstanceAs (Decidable False)

theorem endsReading_octets {bytes piece rest : List UInt8}
    (found : splitLine bytes = some (piece, rest)) : (ReadEvent.octets bytes).EndsReading := by
  obtain ⟨body, -, -, rfl⟩ := splitLine_eq_some found
  exact List.mem_append_right body List.mem_cons_self

/-- The calls that it takes to end a reading, the one under way among them. A request to stop is
raised in the middle of a call, and a call behind the script finds the end. -/
def callsToEnd : List ReadEvent → Nat
  | [] => 1
  | .stopRequest :: script => callsToEnd script
  | event :: script => if event.EndsReading then 1 else callsToEnd script + 1

theorem callsToEnd_of_ends {event : ReadEvent} (script : List ReadEvent)
    (ends : event.EndsReading) : callsToEnd (event :: script) = 1 := by
  cases event with
  | stopRequest => exact absurd ends id
  | octets | failure | endOfInput => exact if_pos ends

theorem callsToEnd_of_not_ends {event : ReadEvent} (script : List ReadEvent)
    (goesOn : ¬event.EndsReading) (call : event ≠ .stopRequest) :
    callsToEnd (event :: script) = callsToEnd script + 1 := by
  cases event with
  | stopRequest => exact absurd rfl call
  | octets | failure | endOfInput => exact if_neg goesOn

end ReadEvent

namespace Pump

/-- What the pump does next. A reading knows the length of the unfinished line that it began
with. -/
inductive Stage where
  | looking
  | searching (begun : Nat)
  | calling (begun : Nat)
  | handing
  | ending
  | halted (result : Except ReadError Unit)

/-- The pump between two steps, with the number of calls to the source and the lines handed on so
far. -/
structure Moment extends State where
  stage : Stage
  calls : Nat
  handed : List (List UInt8)

namespace Moment

def start (receiver : Receiver) (script : List ReadEvent) (stopping : Bool) : Moment :=
  ⟨⟨⟨[], script⟩, [], receiver, stopping⟩, .looking, 0, []⟩

def halt (m : Moment) (h : Halt) : Moment :=
  { m with receiver := h.receiver, stopping := h.stopping, stage := .halted h.result }

def halt? (m : Moment) : Option Halt :=
  match m.stage with
  | .halted result => some ⟨result, m.receiver, m.stopping⟩
  | _ => none

/-- One call to the source. The request to stop is raised while the call waits. -/
def call (begun : Nat) (m : Moment) : Moment :=
  match m.source.script with
  | .stopRequest :: script => { m with source := ⟨[], script⟩, stopping := true }
  | .octets bytes :: script =>
    { m with source := ⟨bytes, script⟩, stage := .searching begun, calls := m.calls + 1 }
  | .failure .interrupted _ :: script =>
    { m with source := ⟨[], script⟩, calls := m.calls + 1 }
  | .failure .timedOut _ :: script =>
    { m with source := ⟨[], script⟩, stage := .looking, calls := m.calls + 1 }
  | .failure .other reason :: script =>
    { m with source := ⟨[], script⟩, stage := .halted (.error ⟨reason⟩), calls := m.calls + 1 }
  | .endOfInput :: script =>
    { m with source := ⟨[], script⟩, calls := m.calls + 1,
             stage := if begun < m.line.length then .looking else .ending }
  | [] =>
    { m with source := ⟨[], []⟩, calls := m.calls + 1,
             stage := if begun < m.line.length then .looking else .ending }

def step (now : String) (m : Moment) : Logged Moment :=
  match m.stage with
  | .looking =>
    if m.stopping then m.halt <$> stop m.toState
    else pure { m with stage := .searching m.line.length }
  | .searching begun =>
    match splitLine m.source.buffered with
    | some (piece, rest) =>
      pure { m with source := ⟨rest, m.source.script⟩, line := m.line ++ piece, stage := .handing }
    | none =>
      pure { m with source := ⟨[], m.source.script⟩, line := m.line ++ m.source.buffered,
                    stage := .calling begun }
  | .calling begun => pure (m.call begun)
  | .handing =>
    (fun receiver =>
      { m with receiver, line := [], stage := .looking, handed := m.handed ++ [m.line] }) <$>
        deliver now m.receiver m.line
  | .ending =>
    (fun h => { m.halt h with handed := m.handed ++ if m.line = [] then [] else [m.line] }) <$>
      finish now m.toState m.stopping
  | .halted _ => pure m

def steps (now : String) : Nat → Moment → Logged Moment
  | 0, m => pure m
  | n + 1, m => step now m >>= steps now n

/-- After the reading that is under way, which began with so long a line. -/
def after (begun : Nat) (m : Moment) (read : LineRead) (calls : Nat) : Moment :=
  { m with
    source := read.source
    line := read.line
    stopping := read.stopping
    calls
    stage := match read.ending with
      | .lineFeed => .handing
      | .timedOut => .looking
      | .failed reason => .halted (.error ⟨reason⟩)
      | .endOfInput => if begun < read.line.length then .looking else .ending }

variable {now : String} {m : Moment} {begun : Nat}

theorem steps_one : steps now 1 m = step now m := bind_pure (step now m)

theorem steps_add (i j : Nat) : steps now (i + j) m = steps now i m >>= steps now j := by
  induction i generalizing m with
  | zero => rw [Nat.zero_add, steps, pure_bind]
  | succ i ih =>
    rw [Nat.succ_add, steps, steps, bind_assoc]
    congr 1
    funext next
    exact ih

theorem steps_of_pure {next : Moment} {i : Nat} (h : steps now i m = pure next) (j : Nat) :
    steps now (i + j) m = steps now j next := by
  rw [steps_add, h, pure_bind]

theorem steps_succ_of_pure {next : Moment} (h : step now m = pure next) (j : Nat) :
    steps now (1 + j) m = steps now j next :=
  steps_of_pure (steps_one.trans h) j

/-- The calls of a reading come to what the reading of a script comes to at once. -/
theorem exists_steps_callsToEnd (now : String) (calling : m.stage = .calling begun) :
    ∃ n, steps now n m = pure (m.after begun (readScript m.line m.stopping m.source.script)
      (m.calls + ReadEvent.callsToEnd m.source.script)) := by
  obtain ⟨⟨⟨buffered, script⟩, line, receiver, stopping⟩, stage, calls, handed⟩ := m
  dsimp only at calling
  subst calling
  induction script generalizing buffered line stopping calls with
  | nil => exact ⟨1, rfl⟩
  | cons event script ih =>
    dsimp only at ih ⊢
    cases event with
    | octets bytes =>
      dsimp only [readScript]
      cases found : splitLine bytes with
      | some split =>
        have ends := ReadEvent.callsToEnd_of_ends script (ReadEvent.endsReading_octets found)
        refine ⟨2, ?_⟩
        rw [ends]
        simp [steps, step, call, found, after]
      | none =>
        have goesOn : ¬(ReadEvent.octets bytes).EndsReading := splitLine_eq_none found
        obtain ⟨n, reached⟩ := ih (calls + 1) (line ++ bytes) stopping []
        rw [ReadEvent.callsToEnd_of_not_ends script goesOn nofun, ← Nat.add_assoc,
          Nat.add_right_comm]
        refine ⟨2 + n, Eq.trans (steps_of_pure ?_ n) reached⟩
        simp [steps, step, call, found]
    | failure kind message =>
      cases kind with
      | timedOut => exact ⟨1, rfl⟩
      | interrupted =>
        have goesOn : ¬(ReadEvent.failure .interrupted message).EndsReading := not_not_intro rfl
        obtain ⟨n, reached⟩ := ih (calls + 1) line stopping []
        rw [ReadEvent.callsToEnd_of_not_ends script goesOn nofun, ← Nat.add_assoc,
          Nat.add_right_comm]
        exact ⟨1 + n, (steps_of_pure rfl n).trans reached⟩
      | other => exact ⟨1, rfl⟩
    | endOfInput => exact ⟨1, rfl⟩
    | stopRequest =>
      obtain ⟨n, reached⟩ := ih calls line true []
      exact ⟨1 + n, (steps_of_pure rfl n).trans reached⟩

theorem exists_steps_calling (now : String) (calling : m.stage = .calling begun) :
    ∃ n calls, steps now n m =
      pure (m.after begun (readScript m.line m.stopping m.source.script) calls) := by
  obtain ⟨n, reached⟩ := exists_steps_callsToEnd now calling
  exact ⟨n, _, reached⟩

theorem exists_steps_searching (now : String) (searching : m.stage = .searching begun) :
    ∃ n calls, steps now n m =
      pure (m.after begun (m.source.readLine m.line m.stopping) calls) := by
  rw [readLine]
  cases found : splitLine m.source.buffered with
  | some split =>
    refine ⟨1, m.calls, ?_⟩
    rw [steps_one, step, searching]
    simp [found, after]
  | none =>
    let emptied : Moment := { m with
      source := ⟨[], m.source.script⟩
      line := m.line ++ m.source.buffered
      stage := .calling begun }
    have once : step now m = pure emptied := by
      rw [step, searching]
      simp [found, emptied]
    obtain ⟨n, calls, reached⟩ := exists_steps_calling now (m := emptied) rfl
    exact ⟨1 + n, calls, (steps_succ_of_pure once n).trans reached⟩

theorem exists_steps_looking (now : String) (looking : m.stage = .looking)
    (unasked : m.stopping = false) :
    ∃ n calls, steps now n m =
      pure (m.after m.line.length (m.source.readLine m.line false) calls) := by
  let reading : Moment := { m with stage := .searching m.line.length }
  have once : step now m = pure reading := by
    rw [step, looking]
    simp [unasked, reading]
  obtain ⟨n, calls, reached⟩ := exists_steps_searching now (m := reading) rfl
  rw [← unasked]
  exact ⟨1 + n, calls, (steps_succ_of_pure once n).trans reached⟩

/-- What a turn came to, as far as one is over. -/
def turned? (m : Moment) : Option (Halt ⊕ State) :=
  match m.stage with
  | .halted result => some (.inl ⟨result, m.receiver, m.stopping⟩)
  | .looking => some (.inr m.toState)
  | _ => none

theorem halt?_of_turned? {h : Halt} (turned : m.turned? = some (.inl h)) : m.halt? = some h := by
  unfold turned? at turned
  split at turned
  · next halted =>
    cases turned
    rw [halt?, halted]
  · cases turned
  · cases turned

theorem looking_of_turned? {next : State} (turned : m.turned? = some (.inr next)) :
    m.stage = .looking ∧ m.toState = next := by
  unfold turned? at turned
  split at turned
  · cases turned
  · next looking =>
    cases turned
    exact ⟨looking, rfl⟩
  · cases turned

theorem exists_steps_turn (now : String) (looking : m.stage = .looking) :
    ∃ n, turned? <$> steps now n m = some <$> turn now m.toState := by
  cases asked : m.stopping with
  | true =>
    refine ⟨1, ?_⟩
    rw [steps_one, step, looking, turn]
    simp [asked, turned?, halt]
  | false =>
    obtain ⟨n, calls, reached⟩ := exists_steps_looking now looking asked
    rw [turn, asked, if_neg Bool.false_ne_true]
    have extended := prefix_readLine m.source m.line false
    generalize m.source.readLine m.line false = read at reached extended
    dsimp only
    cases ending : read.ending with
    | failed reason => exact ⟨n, by rw [reached]; simp [after, turned?, ending]⟩
    | timedOut => exact ⟨n, by rw [reached]; simp [after, turned?, ending]⟩
    | lineFeed =>
      refine ⟨n + 1, ?_⟩
      rw [steps_of_pure reached, steps_one, step]
      simp [after, turned?, ending]
    | endOfInput =>
      by_cases grown : m.line.length < read.line.length
      · exact ⟨n, by rw [reached]; simp [after, turned?, ending, grown]⟩
      · have same : m.line = read.line := extended.eq_of_length_le (Nat.le_of_not_lt grown)
        have ends : finish now ⟨read.source, read.line, m.receiver, read.stopping⟩ read.stopping =
            finish now m.toState read.stopping := by
          rw [finish, finish, same]
        refine ⟨n + 1, ?_⟩
        rw [steps_of_pure reached, steps_one, step]
        simp [after, turned?, ending, grown, ends]
        rfl

/-- Left to itself the pump comes to a halt, and to the same as when it runs at once. -/
theorem exists_steps_run (now : String) (looking : m.stage = .looking) :
    ∃ n, halt? <$> steps now n m = some <$> run now m.toState := by
  induction size : m.source.size using Nat.strongRecOn generalizing m with
  | ind size ih =>
    subst size
    obtain ⟨n, turned⟩ := exists_steps_turn now looking
    have records : (steps now n m).records = (turn now m.toState).records := by
      simpa using congrArg Logged.records turned
    have value : (steps now n m).value.turned? = some (turn now m.toState).value := by
      simpa using congrArg Logged.value turned
    rw [run_eq]
    cases came : (turn now m.toState).value with
    | inl h =>
      rw [came] at value
      refine ⟨n, Logged.ext ?_ ?_⟩
      · simp [halt?_of_turned? value, came]
      · simp [records, came]
    | inr next =>
      rw [came] at value
      obtain ⟨looking', same⟩ := looking_of_turned? value
      have smaller : (steps now n m).value.source.size < m.source.size := by
        rw [same]
        exact turn_size came
      obtain ⟨more, halts⟩ := ih _ smaller looking' rfl
      rw [same] at halts
      refine ⟨n + more, ?_⟩
      rw [steps_add]
      apply Logged.ext
      · have := congrArg Logged.value halts
        simpa [came] using this
      · have := congrArg Logged.records halts
        simpa [came, records] using this

end Moment

end Pump

end SpectrumViewer
