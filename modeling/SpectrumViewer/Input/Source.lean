import SpectrumViewer.Files
import SpectrumViewer.Input.ByteSource
import SpectrumViewer.Log

set_option autoImplicit false

/-!
Where frames come from: a serial port, a captured text that is replayed, or the built-in demo. A
source is opened before the reader starts, so what cannot be opened is an error at startup.
-/

namespace SpectrumViewer

/-- A source, with the milliseconds between two frames where the source does not set the pace. -/
inductive Source where
  | serial (port : String) (baudRate : UInt32)
  | replay (path : String) (interval : UInt64)
  | demo (interval : UInt64)
  deriving DecidableEq, Repr

/-- A source that was opened. -/
inductive Opened where
  | replay (script : List ReadEvent)
  | demo (interval : UInt64)

/-- A source that cannot be opened, and why. -/
inductive OpenError where
  | serial (port : String) (baudRate : UInt32) (cause : FileError)
  | replay (path : String) (cause : FileError)
  deriving DecidableEq, Repr

namespace OpenError

def message : OpenError → String
  | .serial port baudRate _ => s!"Failed to open serial port {port} at {baudRate.toNat} baud"
  | .replay path _ => s!"Failed to open replay file {path}"

/-- The words for the cause. Ports have no numbers for errors. -/
def cause : OpenError → String
  | .serial _ _ cause => cause.reason.1
  | .replay _ cause => cause.message

end OpenError

/-- Why what stands at a place is no serial port. -/
def Place.portError : Place → FileError
  | .file _ => .noTerminal
  | .directory => .isDirectory
  | .free => .notFound
  | .blocked reading _ => reading

/-- What reading meets behind an open file. A directory can be opened, but not read. -/
def Place.script? : Place → Except FileError (List ReadEvent)
  | .directory => .ok [.failure .other FileError.isDirectory.message]
  | place => place.read?.map fun octets => [.octets octets]

namespace Source

def label : Source → String
  | .serial port baudRate => s!"{port} @ {baudRate.toNat} baud"
  | .replay path _ => s!"replay {path}"
  | .demo _ => "demo signal"

def path? : Source → Option String
  | .serial port _ => some port
  | .replay path _ => some path
  | .demo _ => none

/-- Opens a source whose path leads to a place, with a buffer of the standard capacity. No place is
a serial port. -/
def open? (s : Source) (place : Place) : Logged (Except OpenError Opened) :=
  match s with
  | .serial port baudRate => return .error (.serial port baudRate place.portError)
  | .replay path _ =>
    match place.script? with
    | .error e => return .error (.replay path e)
    | .ok script => do
      Logged.log .info .input s!"Replaying {path}"
      return .ok (.replay (ReadEvent.through ByteSource.standardCapacity script))
  | .demo interval => return .ok (.demo interval)

end Source

end SpectrumViewer
