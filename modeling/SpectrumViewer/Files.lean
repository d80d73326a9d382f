set_option autoImplicit false

/-!
What stands where a path leads, as far as the viewer looks. It reads a file whole, makes one where
there is none, and opens one to read from later.
-/

namespace SpectrumViewer

/-- Why a file is not read, made or opened. -/
inductive FileError where
  | notFound
  | isDirectory
  | notDirectory
  | denied
  | nameTooLong
  /-- A name holds a zero. -/
  | zeroInName
  /-- Its octets are no text. -/
  | notText
  /-- It is no device that a terminal could be. -/
  | noTerminal
  deriving DecidableEq, Repr

namespace FileError

/-- The system's words for an error, and its number there. -/
def reason : FileError → String × Option Nat
  | .notFound => ("No such file or directory", some 2)
  | .isDirectory => ("Is a directory", some 21)
  | .notDirectory => ("Not a directory", some 20)
  | .denied => ("Permission denied", some 13)
  | .nameTooLong => ("File name too long", some 36)
  | .zeroInName => ("file name contained an unexpected NUL byte", none)
  | .notText => ("stream did not contain valid UTF-8", none)
  | .noTerminal => ("Not a typewriter", some 25)

def message (e : FileError) : String :=
  match e.reason with
  | (text, some number) => s!"{text} (os error {number})"
  | (text, none) => text

end FileError

/-- What a path leads to. -/
inductive Place where
  | file (octets : List UInt8)
  | directory
  /-- There is nothing, and a file can be made. -/
  | free
  /-- There is nothing to read, and no file can be made. -/
  | blocked (reading making : FileError)
  deriving DecidableEq, Repr

namespace Place

def isTaken : Place → Bool
  | .file _ => true
  | .directory => true
  | _ => false

def read? : Place → Except FileError (List UInt8)
  | .file octets => .ok octets
  | .directory => .error .isDirectory
  | .free => .error .notFound
  | .blocked reading _ => .error reading

/-- Whether a file can be written over or made. -/
def write? : Place → Except FileError Unit
  | .file _ => .ok ()
  | .directory => .error .isDirectory
  | .free => .ok ()
  | .blocked _ making => .error making

end Place

end SpectrumViewer
