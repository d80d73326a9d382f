import SpectrumViewer.Program

set_option autoImplicit false

/-!
The program on a real machine: looks at the files that the command line names, and carries out what
the run came to.
-/

namespace SpectrumViewer

namespace Machine

/-- The error that stands for one of the system's. -/
def fileError : IO.Error → FileError
  | .noFileOrDirectory .. => .notFound
  | .inappropriateType _ code _ => if code = 21 then .isDirectory else .notDirectory
  | .invalidArgument .. => .notFound
  | _ => .denied

def node? (names : List String) : IO (Option FileNode) := do
  try
    let bytes ← IO.FS.readBinFile ("/" ++ "/".intercalate names)
    return some (.file bytes.toList)
  catch e =>
    match fileError e with
    | .isDirectory => return some .directory
    | .denied => return some .closed
    | _ => return none

/-- The files and directories on the way of some paths. -/
def files (paths : List String) : IO FileTree := do
  let current := FileTree.parts (toString (← IO.currentDir))
  let met := paths.flatMap fun path =>
    FileTree.met (if path.startsWith "/" then [] else current) (FileTree.parts path)
  let nodes ← met.mapM fun names => return (← node? names).map (names, ·)
  let around := (List.range (current.length + 1)).map fun n => (current.take n, FileNode.directory)
  return ⟨nodes.filterMap id ++ around, current⟩

end Machine

end SpectrumViewer

open SpectrumViewer in
def main (argv : List String) : IO UInt32 := do
  let files ← Machine.files (Program.paths argv)
  let ending := Program.start argv (← IO.getEnv "RUST_LOG") files []
  match ending.created with
  | some (path, text) => IO.FS.writeFile path text
  | none => pure ()
  IO.print ending.output
  IO.eprint ending.errors
  return UInt32.ofNat ending.code
