import SpectrumViewer.Number.Binary32

set_option autoImplicit false

/-!
The screen, and what of it is in sight. Only what is in sight is painted of the line at the bottom,
of the button in it and of the title of the waterfall; that is up to how the screen lays out texts.
-/

namespace SpectrumViewer

/-- A screen of some width and height. -/
structure Screen where
  width : Binary32
  height : Binary32
  deriving DecidableEq, Repr

namespace Screen

/-- The distance of everything from the edges of the screen. -/
def inset : Binary32 := 8

/-- The right edge of what is painted, never left of the left one. -/
def right (s : Screen) : Binary32 := Binary32.max (s.width - inset) inset

end Screen

/-- What a layout of texts leaves in sight of a screen: the text at the bottom, the button behind
it, the title of the waterfall. -/
structure Sight where
  line : Screen → Bool
  button : Screen → (text : String) → Bool
  title : Screen → Bool

end SpectrumViewer
