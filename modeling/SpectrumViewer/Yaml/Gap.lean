import SpectrumViewer.Yaml.Character

set_option autoImplicit false

/-!
Gaps between the words of a flow scalar. Spaces on one line stay. At a line break they are
dropped, and so are those that follow it; a single line feed becomes a space, and of more breaks
the first line feed is dropped.
-/

namespace SpectrumViewer

namespace Yaml

inductive Gap where
  | none
  /-- Spaces and tabs, the last one first. -/
  | spaces (cs : List Char)
  /-- A first break and the ones after it, the last one first. -/
  | breaks (first : Char) (more : List Char)
  /-- A break that was escaped, and the ones after it, the last one first. -/
  | escaped (more : List Char)
  deriving DecidableEq, Repr

namespace Gap

def spansLines : Gap → Bool
  | none => false
  | spaces _ => false
  | breaks .. => true
  | escaped _ => true

def addSpace (c : Char) : Gap → Gap
  | none => spaces [c]
  | spaces cs => spaces (c :: cs)
  | gap => gap

def addBreak (c : Char) : Gap → Gap
  | none => breaks c []
  | spaces _ => breaks c []
  | breaks first more => breaks first (c :: more)
  | escaped more => escaped (c :: more)

/-- What a gap contributes to the text, the last character first. -/
def text : Gap → List Char
  | none => []
  | spaces cs => cs
  | breaks first [] => if first = '\n' then [' '] else [first]
  | breaks first more => if first = '\n' then more else more ++ [first]
  | escaped more => more

end Gap

end Yaml

end SpectrumViewer
