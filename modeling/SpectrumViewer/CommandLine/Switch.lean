set_option autoImplicit false

/-!
The switches of the command line. A switch is written with two hyphens and its name, some also with
one hyphen and a letter; some take a value.
-/

namespace SpectrumViewer

namespace CommandLine

inductive Switch where
  | port
  | baud
  | replay
  | demo
  | frameInterval
  | listPorts
  | config
  | enableLogs
  | help
  | version
  deriving DecidableEq, Repr

namespace Switch

/-- All switches, in the order in which the help lists them. -/
def all : List Switch :=
  [.port, .baud, .replay, .demo, .frameInterval, .listPorts, .config, .enableLogs, .help,
    .version]

def name : Switch → String
  | .port => "port"
  | .baud => "baud"
  | .replay => "replay"
  | .demo => "demo"
  | .frameInterval => "frame-interval-ms"
  | .listPorts => "list-ports"
  | .config => "config"
  | .enableLogs => "enable-logs"
  | .help => "help"
  | .version => "version"

def letter? : Switch → Option Char
  | .help => some 'h'
  | .version => some 'V'
  | _ => none

def takesValue : Switch → Bool
  | .port => true
  | .baud => true
  | .replay => true
  | .frameInterval => true
  | .config => true
  | _ => false

def about : Switch → String
  | .port => "Serial port to read from (defaults to the first port found)"
  | .baud => "Baud rate, overrides the config file"
  | .replay => "Replay a captured text file instead of a serial port"
  | .demo => "Run on a built-in synthetic signal"
  | .frameInterval => "Delay between frames for --replay and --demo [default: 50]"
  | .listPorts => "Print the available serial ports and exit"
  | .config => "Path of the YAML config file (created with defaults if missing)"
  | .enableLogs => "Enable logging (respects RUST_LOG)"
  | .help => "Print help"
  | .version => "Print version"

/-- The switch of a name. Names are not abbreviated. -/
def named? (name : String) : Option Switch := all.find? (·.name = name)

def lettered? (letter : Char) : Option Switch := all.find? (·.letter? = some letter)

def valueName (s : Switch) : String :=
  s.name.map fun c => if c = '-' then '_' else c.toUpper

def shown (s : Switch) : String :=
  let short := match s.letter? with
    | some c => "  -" ++ c.toString ++ ", "
    | none => "      "
  let value := if s.takesValue then " <" ++ s.valueName ++ ">" else ""
  short ++ "--" ++ s.name ++ value

end Switch

def programName : String := "fft_waterfall"

def versionText : String := programName ++ " 0.1.0\n"

def helpText : String :=
  "Live spectrum and waterfall viewer for FFT frames sent over a serial line\n\nUsage: " ++
    programName ++ " [OPTIONS]\n\nOptions:\n" ++
    String.join (Switch.all.map fun s => s.shown ++ "\n          " ++ s.about ++ "\n")

end CommandLine

end SpectrumViewer
