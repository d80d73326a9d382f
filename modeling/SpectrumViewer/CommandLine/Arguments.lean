import SpectrumViewer.CommandLine.Switch
import SpectrumViewer.Number.Decimal

set_option autoImplicit false

/-!
What a command line asks for. Every switch is given at most once, and at most one source of frames
is named; whatever breaks these rules is refused.
-/

namespace SpectrumViewer

structure Arguments where
  port : Option String
  baud : Option UInt32
  replay : Option String
  demo : Bool
  /-- Milliseconds between two frames. -/
  frameInterval : Option UInt64
  listPorts : Bool
  config : Option String
  enableLogs : Bool
  deriving DecidableEq, Repr

namespace CommandLine

/-- Why a command line is refused. -/
inductive Refusal where
  /-- A switch is given twice, or two sources are named. -/
  | conflict
  | missingValue
  | malformedValue
  | unknownSwitch
  /-- A value for a switch that takes none. -/
  | needlessValue
  deriving DecidableEq, Repr

/-- An answer to a command line that does not start the viewer. -/
inductive Reply where
  | help
  | version
  | refused (reason : Refusal)
  deriving DecidableEq, Repr

end CommandLine

namespace Arguments

open CommandLine

def empty : Arguments := ⟨none, none, none, false, none, false, none, false⟩

/-- Milliseconds between two frames where nothing else is asked for. -/
def standardInterval : UInt64 := 50

def interval (a : Arguments) : UInt64 := a.frameInterval.getD standardInterval

/-- Where the settings are unless the command line says so. -/
def standardConfig : String := "fft_waterfall.yaml"

def configPath (a : Arguments) : String := a.config.getD standardConfig

/-- A nonempty run of digits. -/
def digits? (cs : List Char) : Option Nat :=
  if cs ≠ [] ∧ cs.all Char.isDigit then some (Decimal.digitsValue cs) else none

/-- A 64-bit word, which may have a plus sign. -/
def word? (text : String) : Option UInt64 :=
  let cs := text.toList
  let digits := if cs.head? = some '+' then cs.tail else cs
  ((digits? digits).filter (· < UInt64.size)).map UInt64.ofNat

/-- A baud rate is read as a signed number, so a zero may have a minus sign. -/
def baudRate? (text : String) : Option UInt32 :=
  let (negative, digits) := Decimal.splitSign text.toList
  ((digits? digits).filter fun n => n < UInt32.size ∧ (negative → n = 0)).map UInt32.ofNat

def isGiven (a : Arguments) : Switch → Bool
  | .port => a.port.isSome
  | .baud => a.baud.isSome
  | .replay => a.replay.isSome
  | .demo => a.demo
  | .frameInterval => a.frameInterval.isSome
  | .listPorts => a.listPorts
  | .config => a.config.isSome
  | .enableLogs => a.enableLogs
  | .help => false
  | .version => false

def formed {α : Type} : Option α → Except Reply α
  | some a => .ok a
  | none => .error (.refused .malformedValue)

/-- A path, which is not empty. -/
def path? (text : String) : Except Reply String :=
  if text = "" then .error (.refused .missingValue) else .ok text

/-- Takes in a switch with its value, where it takes one. -/
def take? (a : Arguments) (s : Switch) (value : String) : Except Reply Arguments :=
  if a.isGiven s then .error (.refused .conflict)
  else match s with
    | .port => .ok { a with port := some value }
    | .baud => return { a with baud := some (← formed (baudRate? value)) }
    | .replay => return { a with replay := some (← path? value) }
    | .demo => .ok { a with demo := true }
    | .frameInterval => return { a with frameInterval := some (← formed (word? value)) }
    | .listPorts => .ok { a with listPorts := true }
    | .config => return { a with config := some (← path? value) }
    | .enableLogs => .ok { a with enableLogs := true }
    | .help => .error .help
    | .version => .error .version

def sourceCount (a : Arguments) : Nat :=
  a.port.isSome.toNat + a.replay.isSome.toNat + a.demo.toNat

end Arguments

end SpectrumViewer
