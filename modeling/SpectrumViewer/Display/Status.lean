set_option autoImplicit false

/-!
The line of text below the plots.
-/

namespace SpectrumViewer

namespace Status

/-- How many frames came in, and when the last one did. -/
def counts (accepted rejected : Nat) (lastFrame : Option String) : String :=
  let frames := s!"Frames: {accepted}  Rejected: {rejected}"
  match lastFrame with
  | some time => s!"{frames}  Last frame: {time}"
  | none => frames

/-- The counts behind the name of the source. -/
def line (label : String) (accepted rejected : Nat) (lastFrame : Option String) : String :=
  label ++ "  |  " ++ counts accepted rejected lastFrame

end Status

end SpectrumViewer
