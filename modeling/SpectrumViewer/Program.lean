import SpectrumViewer.CommandLine.Parser
import SpectrumViewer.Display.Viewer
import SpectrumViewer.Files.Tree
import SpectrumViewer.Input.Source
import SpectrumViewer.Log.Filter
import SpectrumViewer.Settings.Store

set_option autoImplicit false

/-!
The program from its command line to its end, on a machine without a display: it loads the
settings, chooses and opens the source, prepares the display, finds that no window can be opened,
and stops the reader. What the reader does meanwhile has its own log, in no fixed order with this
one.
-/

namespace SpectrumViewer

namespace Arguments

/-- The source that the command line names. A baud rate on it wins over the settings. -/
def namedSource? (a : Arguments) (configured : UInt32) : Option Source :=
  if a.demo then some (.demo a.interval)
  else match a.replay, a.port with
    | some path, _ => some (.replay path a.interval)
    | none, some port => some (.serial port (a.baud.getD configured))
    | none, none => none

/-- The source that is named, or else the first of the machine's ports. -/
def chooseSource (a : Arguments) (configured : UInt32) (ports : List String) :
    Logged (Option Source) :=
  match a.namedSource? configured, ports with
  | some source, _ => return some source
  | none, port :: _ => do
    Logged.log .warn .program s!"No port given, using the first one found: {port}"
    return some (.serial port (a.baud.getD configured))
  | none, [] => return none

end Arguments

namespace Program

/-- Why the program gives up. -/
inductive Failure where
  | settings (error : Settings.LoadError)
  | noPort
  | source (error : OpenError)
  /-- The waterfall is larger than memory can be. -/
  | waterfallSize
  deriving DecidableEq, Repr

namespace Failure

def message : Failure → String
  | .settings error => error.message
  | .noPort => "No serial ports found. Use --port, --replay or --demo."
  | .source error => error.message
  | .waterfallSize => "capacity overflow"

/-- A failure with its cause, where it has one. -/
def report : Failure → String
  | .source error => error.message ++ "\n\nCaused by:\n    " ++ error.cause
  | failure => failure.message

end Failure

/-- What a run of the viewer came to, and the text of the file it made. -/
structure Outcome where
  result : Except Failure Unit
  created : Option String

/-- Opens a source and shows its frames. Without a display there is nothing to wait for. -/
def present (settings : Settings) (source : Source) (place : Place) :
    Logged (Except Failure Unit) := do
  Logged.log .info .program "Starting reader thread..."
  match ← source.open? place with
  | .error e => return .error (.source e)
  | .ok _ =>
    Logged.log .info .program "Starting GUI..."
    match Viewer.new? settings source.label with
    | none => return .error .waterfallSize
    | some viewer =>
      let _ ← viewer
      Logged.log .error .program "GUI error: there is no display"
      Logged.log .info .program "Setting shutdown flag..."
      Logged.log .info .program "Reader thread terminated successfully"
      return .ok ()

def filesAfter (files : FileTree) (path : String) (created : Option String) : FileTree :=
  match created with
  | some text => files.write path (Utf8.encode text)
  | none => files

def view (a : Arguments) (settings : Settings) (files : FileTree) (ports : List String) :
    Logged (Except Failure Unit) := do
  let rate := settings.sampleRate.text
  Logged.log .info .program
    (s!"Config: {settings.binCount} bins, {rate} Hz, " ++
      s!"waterfall depth {settings.waterfallDepth.toNat}")
  match ← a.chooseSource settings.baudRate ports with
  | none => return .error .noPort
  | some source =>
    let label := source.label
    Logged.log .info .program s!"Input: {label}"
    present settings source ((source.path?.map files.place).getD .free)

def run (a : Arguments) (files : FileTree) (ports : List String) : Logged Outcome := do
  let path := a.configPath
  let load ← Settings.loadOrCreate path (files.place path)
  match load.result with
  | .error e => return ⟨.error (.settings e), load.created⟩
  | .ok settings =>
    return ⟨← view a settings (filesAfter files path load.created) ports, load.created⟩

def portList (ports : List String) : String :=
  if ports = [] then "No serial ports found.\n"
  else "Available serial ports:\n" ++
    String.join (ports.zipIdx.map fun (port, i) => s!"  [{i}] - {port}\n")

/-- How the program ends: its exit code, its two outputs, and the text of the file it made. -/
structure Ending where
  code : Nat
  output : String
  errors : String
  created : Option (String × String)
  deriving DecidableEq, Repr

def Failure.code : Failure → Nat
  | .waterfallSize => 101
  | _ => 1

/-- The log as it is shown, once it is enabled. -/
def shownLog (filterText : Option String) (records : List Log.Record) : String :=
  let (faults, filter) := Log.Filter.parse (filterText.getD Log.Filter.standardText)
  String.join (faults.map fun fault => "warning: " ++ fault.message ++ ", ignoring it\n") ++
    String.join ((records.filter filter.shows).map Log.Record.line)

/-- What stands on the error output at the end. With the log enabled, a failure is a record. -/
def errorOutput (a : Arguments) (filterText : Option String) (records : List Log.Record)
    (result : Except Failure Unit) : String :=
  match result, a.enableLogs with
  | .ok (), true => shownLog filterText records
  | .ok (), false => ""
  | .error failure, true =>
    let text := "Application encountered an error: " ++ failure.report
    shownLog filterText (records ++ [⟨.error, .program, text⟩])
  | .error failure, false => "Error: " ++ failure.report ++ "\n"

/-- The program with what a command line asks for. -/
def perform (a : Arguments) (filterText : Option String) (files : FileTree)
    (ports : List String) : Ending :=
  if a.listPorts then
    ⟨0, portList ports, if a.enableLogs then shownLog filterText [] else "", none⟩
  else
    let outcome := run a files ports
    let created := outcome.value.created.map (a.configPath, ·)
    let errors := errorOutput a filterText outcome.records outcome.value.result
    match outcome.value.result with
    | .ok () => ⟨0, "", errors, created⟩
    | .error failure => ⟨failure.code, "", errors, created⟩

def paths (argv : List String) : List String :=
  match CommandLine.parse argv with
  | .ok a => a.configPath :: ((a.namedSource? 0).bind Source.path?).toList
  | .error _ => []

def refusalText : CommandLine.Refusal → String
  | .conflict => "an argument is given twice or together with one that it excludes"
  | .missingValue => "a value is required but none was supplied"
  | .malformedValue => "invalid value"
  | .unknownSwitch => "unexpected argument found"
  | .needlessValue => "unexpected value for an argument that takes none"

def start (argv : List String) (filterText : Option String) (files : FileTree)
    (ports : List String) : Ending :=
  match CommandLine.parse argv with
  | .ok a => perform a filterText files ports
  | .error .help => ⟨0, CommandLine.helpText, "", none⟩
  | .error .version => ⟨0, CommandLine.versionText, "", none⟩
  | .error (.refused reason) =>
    ⟨2, "", "error: " ++ refusalText reason ++ "\n\nFor more information, try '--help'.\n", none⟩

end Program

end SpectrumViewer
