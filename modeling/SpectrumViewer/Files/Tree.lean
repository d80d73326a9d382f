import SpectrumViewer.Files

set_option autoImplicit false

/-!
Files and directories, and the paths that lead to them. A path is walked name by name; every name
but the last has to be that of a directory.
-/

namespace SpectrumViewer

/-- What stands under a name. -/
inductive FileNode where
  | file (octets : List UInt8)
  | directory
  /-- What may not be looked at. -/
  | closed
  deriving DecidableEq, Repr

/-- Files and directories, each by the names on the way to it from the root, and the directory where
relative paths start. -/
structure FileTree where
  nodes : List (List String × FileNode)
  current : List String
  deriving DecidableEq, Repr

namespace FileTree

/-- What stands under some names. The root is a directory. -/
def node? (t : FileTree) (names : List String) : Option FileNode :=
  if names = [] then some .directory else t.nodes.lookup names

/-- The greatest sizes of a name and of a path, in octets. -/
def nameLimit : Nat := 255
def pathLimit : Nat := 4095

def enter (t : FileTree) (names : List String) (name : String) : Except FileError (List String) :=
  if nameLimit < name.utf8ByteSize then .error .nameTooLong
  else match t.node? (names ++ [name]) with
    | some .directory => .ok (names ++ [name])
    | some (.file _) => .error .notDirectory
    | some .closed => .error .denied
    | none => .error .notFound

/-- Where a path leads: to a directory as such, or to a name in one. -/
inductive Location where
  | directory
  | name (names : List String) (name : String)
  deriving DecidableEq, Repr

/-- The location that the parts of a path lead to from a directory. -/
def walk (t : FileTree) (names : List String) : List String → Except FileError Location
  | [] => .ok .directory
  | part :: parts =>
    if part = "." then walk t names parts
    else if part = ".." then walk t names.dropLast parts
    else if parts = [] then .ok (.name names part)
    else do
      let names ← t.enter names part
      walk t names parts

/-- The parts of a path. Slashes side by side count as one. -/
def parts (path : String) : List String := (path.splitOn "/").filter (· ≠ "")

def start (t : FileTree) (path : String) : List String :=
  if path.startsWith "/" then [] else t.current

def locate (t : FileTree) (path : String) : Except FileError Location :=
  if path = "" then .error .notFound
  else if path.toList.contains '\x00' then .error .zeroInName
  else if pathLimit < path.utf8ByteSize then .error .nameTooLong
  else t.walk (t.start path) (parts path)

/-- What a name leads to. A slash behind it asks for a directory, which no file can be made as. -/
def placeOf (t : FileTree) (names : List String) (name : String) (slash : Bool) : Place :=
  let blocked (e : FileError) : Place := .blocked e (if slash then .isDirectory else e)
  if nameLimit < name.utf8ByteSize then blocked .nameTooLong
  else match t.node? (names ++ [name]) with
    | some .directory => .directory
    | some (.file octets) => if slash then blocked .notDirectory else .file octets
    | some .closed => .blocked .denied .denied
    | none => if slash then blocked .notFound else .free

def place (t : FileTree) (path : String) : Place :=
  match t.locate path with
  | .ok .directory => .directory
  | .ok (.name names name) => t.placeOf names name (path.endsWith "/")
  | .error e => .blocked e e

def write (t : FileTree) (path : String) (octets : List UInt8) : FileTree :=
  match t.locate path with
  | .ok (.name names name) => { t with nodes := (names ++ [name], .file octets) :: t.nodes }
  | _ => t

/-- Everything that may be met on the way of a path, each by its names. -/
def met (names : List String) : List String → List (List String)
  | [] => []
  | part :: parts =>
    if part = "." then met names parts
    else if part = ".." then met names.dropLast parts
    else (names ++ [part]) :: met (names ++ [part]) parts

end FileTree

end SpectrumViewer
