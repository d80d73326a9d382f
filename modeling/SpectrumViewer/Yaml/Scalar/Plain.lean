import SpectrumViewer.Yaml.Error
import SpectrumViewer.Yaml.Gap

set_option autoImplicit false

/-!
Plain scalars: words without quotes, over one line or more.
-/

namespace SpectrumViewer

namespace Yaml

/-- Where a plain scalar stands: the depth of flow collections around it, and the least column
that its further lines may start in outside of them. -/
structure PlainContext where
  inFlow : Bool
  indent : Int
  deriving DecidableEq, Repr

namespace Plain

/-- Characters that end a plain scalar in a flow collection. -/
def isFlowIndicator (c : Char) : Bool :=
  c = ',' || c = '[' || c = ']' || c = '\x7b' || c = '\x7d'

/-- A colon before one of these is an error in a flow collection. -/
def isFlowNeighbour (c : Char) : Bool := isFlowIndicator c || c = '?'

/-- Whether a scalar ends before the next character, inside a line. -/
def endsBefore (inFlow : Bool) (c : Char) (rest : List Char) : Bool :=
  (c = ':' && endsWord rest) || (inFlow && isFlowIndicator c)

/-- Whether a scalar ends at the first character behind a gap. -/
def endsAfterGap (context : PlainContext) (column : Nat) (c : Char) (rest : List Char) : Bool :=
  (!context.inFlow && decide ((column : Int) < context.indent)) ||
    (column = 0 && atDocumentMark (c :: rest)) || c = '#'

/-- A scalar's text, the place behind it and the gap after it, and whether that gap spans a line
break. -/
structure Read where
  text : List Char
  cursor : Cursor
  newLine : Bool

/-- Reads on behind a text (its last character first) and a gap. -/
def readOn (context : PlainContext) (text : List Char) (gap : Gap) (p : Position) :
    List Char → Except Error Read
  | [] => .ok ⟨text.reverse, ⟨[], p⟩, gap.spansLines⟩
  | c :: rest =>
    if isSpace c then
      if gap.spansLines ∧ (p.column : Int) < context.indent ∧ c = '\t' then .error .tab
      else readOn context text (gap.addSpace c) (p.next c) rest
    else if isBreak c then readOn context text (gap.addBreak c) (p.next c) rest
    else if gap ≠ .none ∧ endsAfterGap context p.column c rest then
      .ok ⟨text.reverse, ⟨c :: rest, p⟩, gap.spansLines⟩
    else if context.inFlow ∧ c = ':' ∧ (rest.head?.map isFlowNeighbour).getD false then
      .error .colon
    else if endsBefore context.inFlow c rest then
      .ok ⟨text.reverse, ⟨c :: rest, p⟩, gap.spansLines⟩
    else readOn context (c :: (gap.text ++ text)) .none (p.next c) rest

/-- Reads the plain scalar that starts at a place. -/
def read (context : PlainContext) (c : Cursor) : Except Error Read :=
  readOn context [] .none c.position c.rest

end Plain

end Yaml

end SpectrumViewer
