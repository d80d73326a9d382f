set_option autoImplicit false

/-!
A buffered source of octets and the reading of a line from it. What the source's reads will meet
is a script: octets, failures, reads that find the end, and the moment at which the request to
stop is raised. After the script every read finds the end. A read takes no more octets than the
buffer has room for, so octets that come at once may take several reads (`through`).

`readLine` adds octets to an unfinished line until a line feed, the end, or a failure that is not
simply tried again. A line is never longer by more than was taken from the source
(`readLine_size`).
-/

namespace SpectrumViewer

/-- Failures of a read: only a timeout is tried again by the pump, only an interruption by the
reading of a line. -/
inductive ReadFailure where
  | timedOut
  | interrupted
  | other
  deriving DecidableEq, Repr

/-- What one read meets. -/
inductive ReadEvent where
  | octets (bytes : List UInt8)
  | failure (kind : ReadFailure) (message : String)
  | endOfInput
  | stopRequest
  deriving DecidableEq, Repr

structure ByteSource where
  buffered : List UInt8
  script : List ReadEvent
  deriving DecidableEq, Repr

namespace ReadEvent

def size : ReadEvent → Nat
  | .octets bytes => bytes.length + 1
  | _ => 1

def sizes : List ReadEvent → Nat
  | [] => 0
  | e :: es => e.size + sizes es

/-- The reads that take octets which come at once into a buffer. A buffer without room looks like
the end. -/
def reads (capacity : Nat) (bytes : List UInt8) : List ReadEvent :=
  if bytes = [] then []
  else if capacity = 0 then [.endOfInput]
  else .octets (bytes.take capacity) :: reads capacity (bytes.drop capacity)
termination_by bytes.length
decreasing_by
  have : 0 < bytes.length := List.length_pos_iff.mpr ‹_›
  simp only [List.length_drop]
  omega

/-- The script as the reads into a buffer of that capacity meet it. -/
def through (capacity : Nat) (script : List ReadEvent) : List ReadEvent :=
  script.flatMap fun
    | .octets bytes => reads capacity bytes
    | event => [event]

end ReadEvent

namespace ByteSource

/-- The capacity of a buffer unless told otherwise. -/
def standardCapacity : Nat := 8192

def size (s : ByteSource) : Nat := s.buffered.length + ReadEvent.sizes s.script

def lineFeed : UInt8 := 10

/-- Octets up to and with the first line feed, and those behind it. -/
def splitLine : List UInt8 → Option (List UInt8 × List UInt8)
  | [] => none
  | b :: bs =>
    if b = lineFeed then some ([b], bs)
    else (splitLine bs).map fun (line, rest) => (b :: line, rest)

theorem splitLine_length {bs line rest : List UInt8} (h : splitLine bs = some (line, rest)) :
    bs.length = line.length + rest.length ∧ 0 < line.length := by
  induction bs generalizing line rest with
  | nil => simp [splitLine] at h
  | cons b bs ih =>
    simp only [splitLine] at h
    split at h
    · obtain ⟨rfl, rfl⟩ := by simpa using h
      simp [Nat.add_comm]
    · obtain ⟨⟨l, r⟩, hl, he⟩ := Option.map_eq_some_iff.1 h
      obtain ⟨rfl, rfl⟩ := by simpa using he
      have := (ih hl).1
      simp only [List.length_cons]
      omega

/-- How the reading of a line ended. -/
inductive LineEnd where
  | lineFeed
  | timedOut
  | failed (message : String)
  | endOfInput
  deriving DecidableEq, Repr

/-- The end of a reading: the line so far, the rest of the source, and whether a stop was
requested. -/
structure LineRead where
  ending : LineEnd
  line : List UInt8
  source : ByteSource
  stopping : Bool

/-- Reads on after the buffer was emptied into the line. -/
def readScript (line : List UInt8) (stopping : Bool) : List ReadEvent → LineRead
  | [] => ⟨.endOfInput, line, ⟨[], []⟩, stopping⟩
  | .octets bytes :: script =>
    match splitLine bytes with
    | some (piece, rest) => ⟨.lineFeed, line ++ piece, ⟨rest, script⟩, stopping⟩
    | none => readScript (line ++ bytes) stopping script
  | .failure .interrupted _ :: script => readScript line stopping script
  | .failure .timedOut _ :: script => ⟨.timedOut, line, ⟨[], script⟩, stopping⟩
  | .failure .other message :: script => ⟨.failed message, line, ⟨[], script⟩, stopping⟩
  | .endOfInput :: script => ⟨.endOfInput, line, ⟨[], script⟩, stopping⟩
  | .stopRequest :: script => readScript line true script

def readLine (s : ByteSource) (line : List UInt8) (stopping : Bool) : LineRead :=
  match splitLine s.buffered with
  | some (piece, rest) => ⟨.lineFeed, line ++ piece, ⟨rest, s.script⟩, stopping⟩
  | none => readScript (line ++ s.buffered) stopping s.script

/-- What a reading leaves: a line that grew by no more than the source shrank, strictly less where
it ended at a timeout, and strictly longer where it ended at a line feed. -/
structure LineRead.Within (r : LineRead) (line : List UInt8) (size : Nat) : Prop where
  total : r.line.length + r.source.size ≤ line.length + size
  grown : line.length ≤ r.line.length
  timedOut : r.ending = .timedOut → r.line.length + r.source.size < line.length + size
  lineFeed : r.ending = .lineFeed → line.length < r.line.length

theorem readScript_size (line : List UInt8) (stopping : Bool) (script : List ReadEvent) :
    (readScript line stopping script).Within line (ReadEvent.sizes script) := by
  fun_induction readScript line stopping script with
  | case1 => constructor <;> simp [size, ReadEvent.sizes]
  | case2 line stopping script bytes piece rest h =>
    have := splitLine_length h
    constructor <;> simp [size, ReadEvent.sizes, ReadEvent.size] <;> omega
  | case3 line stopping script bytes h ih =>
    obtain ⟨total, grown, timedOut, lineFeed⟩ := ih
    simp only [List.length_append] at *
    simp only [ReadEvent.sizes, ReadEvent.size]
    refine ⟨by omega, by omega, fun e => ?_, fun e => ?_⟩
    · have := timedOut e; omega
    · have := lineFeed e; omega
  | case4 line stopping script message ih | case8 line stopping script ih =>
    obtain ⟨total, grown, timedOut, lineFeed⟩ := ih
    simp only [ReadEvent.sizes, ReadEvent.size]
    refine ⟨by omega, grown, fun e => ?_, lineFeed⟩
    have := timedOut e; omega
  | case5 => constructor <;> simp [size, ReadEvent.sizes, ReadEvent.size]
  | case6 => constructor <;> simp [size, ReadEvent.sizes, ReadEvent.size]
  | case7 => constructor <;> simp [size, ReadEvent.sizes, ReadEvent.size]

theorem readLine_size (s : ByteSource) (line : List UInt8) (stopping : Bool) :
    (s.readLine line stopping).Within line s.size := by
  unfold readLine
  split
  · rename_i piece rest h
    have := splitLine_length h
    constructor <;> simp [size] <;> omega
  · obtain ⟨total, grown, timedOut, lineFeed⟩ :=
      readScript_size (line ++ s.buffered) stopping s.script
    have hs : s.size = s.buffered.length + ReadEvent.sizes s.script := rfl
    simp only [List.length_append] at *
    refine ⟨by omega, by omega, fun e => ?_, fun e => ?_⟩
    · have := timedOut e; omega
    · have := lineFeed e; omega

end ByteSource

end SpectrumViewer
