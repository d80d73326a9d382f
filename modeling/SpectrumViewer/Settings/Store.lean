import SpectrumViewer.Files
import SpectrumViewer.Settings.Parser
import SpectrumViewer.Settings.Printer
import SpectrumViewer.Text.Utf8

set_option autoImplicit false

/-!
Settings in files. Loading from a path where nothing stands makes a file of the standard settings
there.
-/

namespace SpectrumViewer

namespace Settings

/-- Why settings are not loaded. -/
inductive LoadError where
  | file (error : FileError)
  | document (path : String) (error : Yaml.Error)
  | fault (fault : Fault)
  deriving DecidableEq, Repr

def LoadError.message : LoadError → String
  | .file error => error.message
  | .document path error =>
    let reason := error.message
    s!"Failed to parse {path}: {reason}"
  | .fault f => f.message

/-- What came of loading: settings or an error, and the text that was written on the way. -/
structure Load where
  result : Except LoadError Settings
  created : Option String

/-- Writes settings to a file. The result is the text that was written. -/
def save (s : Settings) (path : String) (place : Place) : Logged (Except FileError String) :=
  match place.write? with
  | .error e => return .error e
  | .ok () => do
    Logged.log .info .settings s!"Viewer config saved to {path}"
    return .ok s.text

def read? (path : String) (place : Place) : Except LoadError Settings :=
  match place.read? with
  | .error e => .error (.file e)
  | .ok octets =>
    match Utf8.strict? octets with
    | none => .error (.file .notText)
    | some text => (ofText? text).mapError (.document path)

def checked (s : Settings) : Logged (Except LoadError Settings) := do
  match ← s.check with
  | .ok () => return .ok s
  | .error fault => return .error (.fault fault)

def load (path : String) (place : Place) : Logged (Except LoadError Settings) := do
  Logged.log .info .settings s!"Loading viewer config from {path}"
  match read? path place with
  | .ok s => s.checked
  | .error e => return .error e

/-- The settings in a file, or the standard ones in a new file. -/
def loadOrCreate (path : String) (place : Place) : Logged Load := do
  if place.isTaken then return ⟨← load path place, none⟩
  else
    Logged.log .info .settings
      s!"No config file found at {path}. Creating it with defaults."
    match ← standard.save path place with
    | .error e => return ⟨.error (.file e), none⟩
    | .ok text => return ⟨← standard.checked, some text⟩

end Settings

end SpectrumViewer
