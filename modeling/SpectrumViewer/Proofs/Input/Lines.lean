import SpectrumViewer.Input.Pump

set_option autoImplicit false

/-!
The lines that the pump hands on do not depend on how the octets arrive: not on the pieces that the
reads take them in, not on the room in the buffer, and not on timeouts and interruptions between
them (`pump_through`). They are the octets cut behind each line feed (`cut`).

A reading that meets nothing but octets, timeouts and interruptions ends in one of three ways
(`Reads`): with a line, with a timeout, or where these events end. Each keeps the octets that were
not handed on, in their order.
-/

namespace SpectrumViewer

namespace ReadEvent

/-- Neither ends the input nor asks for a stop. -/
def Quiet : ReadEvent → Prop
  | .octets _ => True
  | .failure .timedOut _ => True
  | .failure .interrupted _ => True
  | _ => False

/-- The octets among the events. -/
def carried (events : List ReadEvent) : List UInt8 :=
  events.flatMap fun
    | .octets bytes => bytes
    | _ => []

@[simp] theorem carried_nil : carried [] = [] := rfl

@[simp] theorem carried_append (earlier later : List ReadEvent) :
    carried (earlier ++ later) = carried earlier ++ carried later :=
  List.flatMap_append

@[simp] theorem carried_octets (bytes : List UInt8) (events : List ReadEvent) :
    carried (.octets bytes :: events) = bytes ++ carried events := rfl

@[simp] theorem carried_failure (kind : ReadFailure) (message : String)
    (events : List ReadEvent) :
    carried (.failure kind message :: events) = carried events := rfl

theorem carried_reads {capacity : Nat} (room : 0 < capacity) (bytes : List UInt8) :
    carried (reads capacity bytes) = bytes := by
  fun_induction reads capacity bytes with
  | case1 => rfl
  | case2 bytes some none => exact absurd none (Nat.ne_of_gt room)
  | case3 bytes some _ ih =>
    rw [carried_octets, ih]
    exact List.take_append_drop capacity bytes

theorem quiet_of_mem_reads {capacity : Nat} (room : 0 < capacity) {bytes : List UInt8}
    {event : ReadEvent} (h : event ∈ reads capacity bytes) : event.Quiet := by
  fun_induction reads capacity bytes with
  | case1 => cases h
  | case2 bytes some none => exact absurd none (Nat.ne_of_gt room)
  | case3 bytes some _ ih =>
    rcases List.mem_cons.mp h with rfl | later
    · exact trivial
    · exact ih later

theorem through_append (capacity : Nat) (earlier later : List ReadEvent) :
    through capacity (earlier ++ later) = through capacity earlier ++ through capacity later :=
  List.flatMap_append

theorem through_cons (capacity : Nat) (event : ReadEvent) (events : List ReadEvent) :
    through capacity (event :: events) = through capacity [event] ++ through capacity events :=
  through_append capacity [event] events

theorem through_ended (capacity ends : Nat) :
    through capacity (List.replicate ends .endOfInput) = List.replicate ends .endOfInput := by
  induction ends with
  | zero => rfl
  | succ ends ih =>
    rw [List.replicate_succ, through_cons, ih]
    rfl

theorem through_quiet {capacity : Nat} (room : 0 < capacity) {events : List ReadEvent}
    (quiet : ∀ event ∈ events, event.Quiet) :
    (∀ event ∈ through capacity events, event.Quiet) ∧
      carried (through capacity events) = carried events := by
  induction events with
  | nil => exact ⟨quiet, rfl⟩
  | cons event events ih =>
    obtain ⟨laterQuiet, laterCarried⟩ := ih fun e h => quiet e (List.mem_cons_of_mem event h)
    rw [through_cons, carried_append, laterCarried]
    cases event with
    | octets bytes =>
      have same : through capacity [.octets bytes] = reads capacity bytes := List.append_nil _
      rw [same, carried_reads room]
      refine ⟨?_, rfl⟩
      intro e h
      rcases List.mem_append.mp h with piece | later
      · exact quiet_of_mem_reads room piece
      · exact laterQuiet e later
    | failure kind message =>
      refine ⟨?_, rfl⟩
      intro e h
      rcases List.mem_cons.mp h with rfl | later
      · exact quiet _ List.mem_cons_self
      · exact laterQuiet e later
    | endOfInput => exact absurd (quiet _ List.mem_cons_self) id
    | stopRequest => exact absurd (quiet _ List.mem_cons_self) id

end ReadEvent

namespace ByteSource

open ReadEvent

/-- The octets cut behind each line feed: the lines, and what is left behind the last of them. -/
def cut : List UInt8 → List (List UInt8) × List UInt8
  | [] => ([], [])
  | b :: bs =>
    if b = lineFeed then ([b] :: (cut bs).1, (cut bs).2)
    else match cut bs with
      | ([], rest) => ([], b :: rest)
      | (line :: lines, rest) => ((b :: line) :: lines, rest)

/-- The lines of an input that ends: also what is left, unless that is nothing. -/
def allLines (bytes : List UInt8) : List (List UInt8) :=
  (cut bytes).1 ++ if (cut bytes).2 = [] then [] else [(cut bytes).2]

theorem cut_of_not_mem {bytes : List UInt8} (h : lineFeed ∉ bytes) : cut bytes = ([], bytes) := by
  induction bytes with
  | nil => rfl
  | cons b bs ih =>
    obtain ⟨other, later⟩ := List.ne_and_not_mem_of_not_mem_cons h
    rw [cut, if_neg other.symm, ih later]

theorem cut_append {body : List UInt8} (h : lineFeed ∉ body) (rest : List UInt8) :
    cut (body ++ lineFeed :: rest) = ((body ++ [lineFeed]) :: (cut rest).1, (cut rest).2) := by
  induction body with
  | nil => rfl
  | cons b bs ih =>
    obtain ⟨other, later⟩ := List.ne_and_not_mem_of_not_mem_cons h
    rw [List.cons_append, cut, if_neg other.symm, ih later]
    rfl

theorem splitLine_eq_none {bytes : List UInt8} (h : splitLine bytes = none) :
    lineFeed ∉ bytes := by
  induction bytes with
  | nil => exact List.not_mem_nil
  | cons b bs ih =>
    rw [splitLine] at h
    by_cases same : b = lineFeed
    · rw [if_pos same] at h
      cases h
    · rw [if_neg same, Option.map_eq_none_iff] at h
      exact List.not_mem_cons_of_ne_of_not_mem (Ne.symm same) (ih h)

theorem splitLine_eq_some {bytes piece rest : List UInt8}
    (h : splitLine bytes = some (piece, rest)) :
    ∃ body, lineFeed ∉ body ∧ piece = body ++ [lineFeed] ∧ bytes = body ++ lineFeed :: rest := by
  induction bytes generalizing piece with
  | nil => cases h
  | cons b bs ih =>
    rw [splitLine] at h
    by_cases same : b = lineFeed
    · rw [if_pos same] at h
      cases h
      exact ⟨[], List.not_mem_nil, by rw [same]; rfl, by rw [same]; rfl⟩
    · rw [if_neg same] at h
      obtain ⟨⟨line, _⟩, found, eq⟩ := Option.map_eq_some_iff.mp h
      cases eq
      obtain ⟨body, clean, rfl, rfl⟩ := ih found
      exact ⟨b :: body, List.not_mem_cons_of_ne_of_not_mem (Ne.symm same) clean, rfl, rfl⟩

/-- A reading that ends in a line or in a timeout has taken something from the source. -/
theorem LineRead.Within.shrunk {r : LineRead} {line : List UInt8} {size : Nat}
    (within : r.Within line size) (ending : r.ending = .lineFeed ∨ r.ending = .timedOut) :
    r.source.size < size := by
  have total := within.total
  have grown := within.grown
  rcases ending with lineFeed | timedOut
  · have longer := within.lineFeed lineFeed
    omega
  · have less := within.timedOut timedOut
    omega

/-- How a reading of `bytes`, of which the quiet events carry those that were not read before, may
end when other events follow. -/
inductive Reads (others : List ReadEvent) (bytes : List UInt8) : LineRead → Prop where
  | line {body rest : List UInt8} {later : List ReadEvent} :
      (∀ event ∈ later, event.Quiet) → lineFeed ∉ body →
      bytes = body ++ lineFeed :: (rest ++ carried later) →
      Reads others bytes ⟨.lineFeed, body ++ [lineFeed], ⟨rest, later ++ others⟩, false⟩
  | timedOut {line : List UInt8} {later : List ReadEvent} :
      (∀ event ∈ later, event.Quiet) → lineFeed ∉ line → bytes = line ++ carried later →
      Reads others bytes ⟨.timedOut, line, ⟨[], later ++ others⟩, false⟩
  | exhausted : lineFeed ∉ bytes → Reads others bytes (readScript bytes false others)

variable {others : List ReadEvent}

theorem reads_line {line bytes piece rest : List UInt8} {later : List ReadEvent}
    (found : splitLine bytes = some (piece, rest)) (clean : lineFeed ∉ line)
    (quiet : ∀ event ∈ later, event.Quiet) :
    Reads others (line ++ bytes ++ carried later)
      ⟨.lineFeed, line ++ piece, ⟨rest, later ++ others⟩, false⟩ := by
  obtain ⟨body, bodyClean, rfl, rfl⟩ := splitLine_eq_some found
  rw [← List.append_assoc line body (lineFeed :: rest), ← List.append_assoc line body [lineFeed]]
  apply Reads.line quiet (List.not_mem_append clean bodyClean)
  simp only [List.append_assoc, List.cons_append]

theorem readScript_reads {line : List UInt8} {events : List ReadEvent}
    (quiet : ∀ event ∈ events, event.Quiet) (clean : lineFeed ∉ line) :
    Reads others (line ++ carried events) (readScript line false (events ++ others)) := by
  induction events generalizing line with
  | nil =>
    rw [carried_nil, List.append_nil]
    exact Reads.exhausted clean
  | cons event events ih =>
    have laterQuiet : ∀ e ∈ events, e.Quiet := fun e h => quiet e (List.mem_cons_of_mem event h)
    cases event with
    | octets bytes =>
      rw [List.cons_append, readScript, carried_octets, ← List.append_assoc]
      split
      · next piece rest found => exact reads_line found clean laterQuiet
      · next missing =>
        exact ih laterQuiet (List.not_mem_append clean (splitLine_eq_none missing))
    | failure kind message =>
      rw [carried_failure]
      cases kind with
      | timedOut => exact Reads.timedOut laterQuiet clean rfl
      | interrupted => exact ih laterQuiet clean
      | other => exact absurd (quiet _ List.mem_cons_self) id
    | endOfInput => exact absurd (quiet _ List.mem_cons_self) id
    | stopRequest => exact absurd (quiet _ List.mem_cons_self) id

theorem readLine_reads {line buffered : List UInt8} {events : List ReadEvent}
    (quiet : ∀ event ∈ events, event.Quiet) (clean : lineFeed ∉ line) :
    Reads others (line ++ buffered ++ carried events)
      (readLine ⟨buffered, events ++ others⟩ line false) := by
  unfold readLine
  split
  · next piece rest found => exact reads_line found clean quiet
  · next missing =>
    exact readScript_reads quiet (List.not_mem_append clean (splitLine_eq_none missing))

end ByteSource

namespace Pump

open ReadEvent ByteSource

/-- Hands lines on that arrive at the same time. -/
def deliverAll (now : String) (receiver : Receiver) (lines : List (List UInt8)) :
    Logged Receiver :=
  Prod.snd <$> receiver.handleLines now (lines.map lineText)

variable {now : String} {receiver : Receiver} {source after : ByteSource}
  {line longer : List UInt8} {stopping : Bool}

theorem deliverAll_bind {α : Type} (lines : List (List UInt8)) (next : Receiver → Logged α) :
    deliverAll now receiver lines >>= next =
      receiver.handleLines now (lines.map lineText) >>= fun handled => next handled.2 :=
  bind_map_left Prod.snd _ next

theorem deliverAll_nil : deliverAll now receiver [] = pure receiver := rfl

theorem deliverAll_cons (line : List UInt8) (lines : List (List UInt8)) :
    deliverAll now receiver (line :: lines) = (do
      let receiver ← deliver now receiver line
      deliverAll now receiver lines) := by
  simp [deliverAll, deliver, Receiver.handleLines]

theorem deliverAll_append (earlier later : List (List UInt8)) :
    deliverAll now receiver (earlier ++ later) = (do
      let receiver ← deliverAll now receiver earlier
      deliverAll now receiver later) := by
  induction earlier generalizing receiver with
  | nil => rw [List.nil_append, deliverAll_nil, pure_bind]
  | cons line earlier ih =>
    rw [List.cons_append, deliverAll_cons, deliverAll_cons, bind_assoc]
    simp only [ih]

theorem run_eq (s : State) :
    run now s = turn now s >>= fun
      | .inl halt => pure halt
      | .inr next => run now next := by
  rw [run]
  split
  · next halt records h =>
    rw [h]
    exact Logged.ext rfl (List.append_nil records).symm
  · next next records h =>
    simp only [h]
    rfl

theorem run_of_lineFeed
    (read : source.readLine line false = ⟨.lineFeed, longer, after, stopping⟩) :
    run now ⟨source, line, receiver, false⟩ = (do
      let receiver ← deliver now receiver longer
      run now ⟨after, [], receiver, stopping⟩) := by
  rw [run_eq, turn]
  simp [read]

theorem run_of_timedOut
    (read : source.readLine line false = ⟨.timedOut, longer, after, stopping⟩) :
    run now ⟨source, line, receiver, false⟩ = run now ⟨after, longer, receiver, stopping⟩ := by
  rw [run_eq, turn]
  simp [read]

theorem run_of_failed {reason : String}
    (read : source.readLine line false = ⟨.failed reason, longer, after, stopping⟩) :
    run now ⟨source, line, receiver, false⟩ =
      pure ⟨.error ⟨reason⟩, receiver, stopping⟩ := by
  rw [run_eq, turn]
  simp [read]

theorem run_of_longer (read : source.readLine line false = ⟨.endOfInput, longer, after, stopping⟩)
    (grown : line.length < longer.length) :
    run now ⟨source, line, receiver, false⟩ = run now ⟨after, longer, receiver, stopping⟩ := by
  rw [run_eq, turn]
  simp [read, grown]

theorem run_of_endOfInput
    (read : source.readLine line false = ⟨.endOfInput, line, after, stopping⟩) :
    run now ⟨source, line, receiver, false⟩ =
      finish now ⟨source, line, receiver, false⟩ stopping := by
  rw [run_eq, turn]
  simp [read]

/-- What becomes of an unfinished line when only `others` are left to read: `close` says it, of the
line as far as it was read. -/
def ClosesWith (now : String) (others : List ReadEvent)
    (close : List UInt8 → Receiver → Logged Halt) : Prop :=
  ∀ (source : ByteSource) (line rest : List UInt8) (receiver : Receiver),
    lineFeed ∉ line ++ rest →
    source.readLine line false = readScript (line ++ rest) false others →
    run now ⟨source, line, receiver, false⟩ = close (line ++ rest) receiver

/-- Whatever the quiet events are, the pump hands on the lines among their octets, and then does
with the rest what the events behind them demand. -/
theorem run_quiet {others : List ReadEvent} {close : List UInt8 → Receiver → Logged Halt}
    (closes : ClosesWith now others close) {events : List ReadEvent}
    (quiet : ∀ event ∈ events, event.Quiet) {line buffered : List UInt8}
    (clean : lineFeed ∉ line) :
    run now ⟨⟨buffered, events ++ others⟩, line, receiver, false⟩ = (do
      let receiver ← deliverAll now receiver (cut (line ++ buffered ++ carried events)).1
      close (cut (line ++ buffered ++ carried events)).2 receiver) := by
  induction size : (ByteSource.mk buffered (events ++ others)).size using Nat.strongRecOn
    generalizing buffered events line receiver with
  | ind size ih =>
    subst size
    have within := readLine_size ⟨buffered, events ++ others⟩ line false
    have reads : Reads others (line ++ buffered ++ carried events)
        (readLine ⟨buffered, events ++ others⟩ line false) := readLine_reads quiet clean
    generalize read : readLine ⟨buffered, events ++ others⟩ line false = result at within reads
    cases reads with
    | line laterQuiet bodyClean same =>
      have smaller := within.shrunk (Or.inl rfl)
      rw [run_of_lineFeed read, same, cut_append bodyClean, deliverAll_cons, bind_assoc]
      congr 1
      funext receiver
      rw [ih _ smaller laterQuiet List.not_mem_nil rfl, List.nil_append]
    | timedOut laterQuiet lineClean same =>
      have smaller := within.shrunk (Or.inr rfl)
      rw [run_of_timedOut read, ih _ smaller laterQuiet lineClean rfl, List.append_nil, same]
    | exhausted allClean =>
      rw [cut_of_not_mem allClean, deliverAll_nil, pure_bind]
      rw [List.append_assoc] at allClean read ⊢
      exact closes _ _ _ _ allClean read

theorem readScript_ended (line : List UInt8) (ends : Nat) :
    readScript line false (List.replicate ends .endOfInput) =
      ⟨.endOfInput, line, ⟨[], List.replicate (ends - 1) .endOfInput⟩, false⟩ := by
  cases ends with
  | zero => rfl
  | succ ends => rfl

/-- At the end of the input the unfinished line is handed on by the reading after the one that found
the end, or by that one if it had nothing new to read. -/
theorem closesWith_end (ends : Nat) :
    ClosesWith now (List.replicate ends .endOfInput) fun line receiver =>
      finish now ⟨⟨[], []⟩, line, receiver, false⟩ false := by
  intro source line rest receiver clean read
  rw [readScript_ended] at read
  by_cases empty : rest = []
  · rw [empty, List.append_nil] at read ⊢
    exact run_of_endOfInput read
  · have grown : line.length < (line ++ rest).length := by
      rw [List.length_append]
      exact Nat.lt_add_of_pos_right (List.length_pos_iff.mpr empty)
    have again : readLine ⟨[], List.replicate (ends - 1) .endOfInput⟩ (line ++ rest) false =
        ⟨.endOfInput, line ++ rest, ⟨[], List.replicate (ends - 1 - 1) .endOfInput⟩, false⟩ := by
      rw [← readScript_ended, readLine, splitLine, List.append_nil]
    rw [run_of_longer read grown, run_of_endOfInput again]
    rfl

theorem closesWith_failure (message : String) (later : List ReadEvent) :
    ClosesWith now (.failure .other message :: later) fun _ receiver =>
      pure ⟨.error ⟨message⟩, receiver, false⟩ := by
  intro source line rest receiver clean read
  exact run_of_failed read

theorem finish_eq (bytes : List UInt8) :
    (do
      let receiver ← deliverAll now receiver (cut bytes).1
      finish now ⟨⟨[], []⟩, (cut bytes).2, receiver, false⟩ false) = (do
      let receiver ← deliverAll now receiver (allLines bytes)
      Logged.log .info .input "Input reached end of stream"
      return ⟨.ok (), receiver, false⟩) := by
  rw [allLines, deliverAll_append, bind_assoc]
  congr 1
  funext receiver
  unfold finish
  split
  · rw [deliverAll_nil]
  · rw [deliverAll_cons, bind_assoc]
    simp only [deliverAll_nil, pure_bind]

end Pump

open ReadEvent ByteSource Pump

/-- However the octets arrive, the receiver is given the lines among them and nothing else: at the
end of the input also what is left unfinished, at a failure only the lines that were finished. -/
theorem Receiver.pump_through (receiver : Receiver) (now : String) {capacity : Nat}
    (room : 0 < capacity) {arrivals : List ReadEvent} (quiet : ∀ event ∈ arrivals, event.Quiet) :
    (∀ ends,
      receiver.pump now (through capacity (arrivals ++ List.replicate ends .endOfInput)) false = (do
        let (_, receiver) ← receiver.handleLines now ((allLines (carried arrivals)).map lineText)
        Logged.log .info .input "Input reached end of stream"
        return ⟨.ok (), receiver, false⟩)) ∧
    ∀ message later,
      receiver.pump now (through capacity (arrivals ++ .failure .other message :: later)) false =
        (do
          let (_, receiver) ← receiver.handleLines now ((cut (carried arrivals)).1.map lineText)
          return ⟨.error ⟨message⟩, receiver, false⟩) := by
  obtain ⟨quietThrough, carriedThrough⟩ := through_quiet room quiet
  constructor
  · intro ends
    rw [pump, through_append, through_ended, run_quiet (closesWith_end ends) quietThrough
      List.not_mem_nil, finish_eq, List.append_nil, List.nil_append, carriedThrough]
    exact deliverAll_bind _ _
  · intro message later
    have failing : through capacity (.failure .other message :: later) =
        .failure .other message :: through capacity later := through_cons capacity _ later
    rw [pump, through_append, failing, run_quiet (closesWith_failure message _) quietThrough
      List.not_mem_nil, List.append_nil, List.nil_append, carriedThrough]
    exact deliverAll_bind _ _

/-- A character is cut in the middle, and so is a line end; what is left at the end is a line. -/
theorem Receiver.pump_through_cuts :
    let arrivals : List ReadEvent := [.octets [0xC3], .failure .timedOut "timeout",
      .octets [0xA9, 13], .failure .interrupted "signal", .octets [10, 52, 44, 53]]
    0 < 2 ∧ (∀ event ∈ arrivals, event.Quiet) ∧
      (allLines (carried arrivals)).map lineText = ["é", "4,5"] ∧
      (Receiver.new 2 .device).pump "12:00:00"
          (through 2 (arrivals ++ List.replicate 1 .endOfInput)) false = (do
        let (_, receiver) ← (Receiver.new 2 .device).handleLines "12:00:00"
          ((allLines (carried arrivals)).map lineText)
        Logged.log .info .input "Input reached end of stream"
        return ⟨.ok (), receiver, false⟩) ∧
      (Receiver.new 2 .device).pump "12:00:00"
          (through 2 (arrivals ++ .failure .other "unplugged" :: [])) false = (do
        let (_, receiver) ← (Receiver.new 2 .device).handleLines "12:00:00"
          ((cut (carried arrivals)).1.map lineText)
        return ⟨.error ⟨"unplugged"⟩, receiver, false⟩) := by
  intro arrivals
  have quiet : ∀ event ∈ arrivals, event.Quiet := by simp [arrivals, Quiet]
  have both := (Receiver.new 2 .device).pump_through "12:00:00" Nat.zero_lt_two quiet
  exact ⟨Nat.zero_lt_two, quiet, by decide, both.1 1, both.2 "unplugged" []⟩

end SpectrumViewer
