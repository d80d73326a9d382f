import SpectrumViewer.Display.Screen

set_option autoImplicit false

/-!
The layout of texts in the window's own typeface. What begins on the screen is in sight; the button
of the line at the bottom stands behind its text, so the width of that text decides about it.
-/

namespace SpectrumViewer

namespace TextWidth

/-- How far characters advance a text, in thousandths of its size. -/
def advances : List (Nat × String) :=
  [(214, "'"), (222, " .:i"), (223, ",;j"), (237, "l"), (246, "!"), (254, "I"), (261, "|"),
   (300, "-"), (306, "()"), (316, "[]"), (322, "\x7b\x7d"), (357, "r"), (358, "f"), (366, "/\\"),
   (376, "\x60"), (384, "t"), (388, "?"), (391, "\""), (429, "s"), (451, "z"), (456, "c"),
   (463, "v"), (466, "xy"), (475, "*"), (485, "J"), (487, "k"), (498, "L"), (500, "_"), (503, "a"),
   (520, "F"), (526, "S"), (548, "e"), (551, "E"), (552, "T"), (554, "$+0123456789<=>^~"),
   (556, "hnu"), (560, "g"), (564, "Z"), (574, "bdpq"), (577, "Y"), (588, "o"), (596, "P"),
   (599, "X"), (605, "R"), (609, "K"), (618, "C"), (625, "V"), (633, "B"), (637, "A"), (662, "&"),
   (665, "G"), (684, "#U"), (704, "H"), (713, "D"), (726, "N"), (738, "w"), (779, "OQ"),
   (846, "M"), (858, "m"), (873, "%"), (886, "W"), (943, "@")]

/-- How far a character advances a text. A tabulator is four spaces wide, and what has no shape of
its own is as wide as most letters. -/
def advance (c : Char) : Nat :=
  if c = '\r' then 0
  else if c = '\t' then 4 * 222
  else match advances.find? fun (_, cs) => cs.toList.contains c with
    | some (width, _) => width
    | none => 600

/-- The size of the line at the bottom, in thousandths of a point. -/
def lineSize : Nat := 12489

/-- The width of a text at the bottom: that of its longest line. -/
def width (text : String) : Binary32 :=
  let lines := (text.splitOn "\n").map fun line => line.toList.foldl (fun n c => n + advance c) 0
  Binary32.ofRatio (lines.foldl max 0 * lineSize) 1000000

end TextWidth

namespace Sight

/-- Whether something with these left and upper edges begins on the screen. -/
def begins (s : Screen) (left top : Binary32) : Bool :=
  Binary32.lessOrEqual left s.width && Binary32.lessOrEqual top s.height

/-- The least distances of the line's text and of its button from the upper edge. -/
def lineTop : Binary32 := 4
def buttonTop : Binary32 := 2

/-- The upper edge of the waterfall's title, below the chart. -/
def titleTop : Binary32 := 371

def measured : Sight where
  line s := begins s Screen.inset lineTop
  button s text := begins s (Screen.inset + TextWidth.width text + Screen.inset) buttonTop
  title s := begins s Screen.inset titleTop

end Sight

end SpectrumViewer
