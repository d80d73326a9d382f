import SpectrumViewer.Text.Utf8
import SpectrumViewer.Yaml.Token.Basic

set_option autoImplicit false

/-!
A document as a tree. An alias stands for the node that its anchor was given to; where that is
looked up is up to whoever reads the tree.
-/

namespace SpectrumViewer

namespace Yaml

def coreTag (name : String) : Tag := Utf8.encode ("tag:yaml.org,2002:" ++ name)

inductive Node where
  /-- What stands in an empty stream. -/
  | void
  | scalar (tag : Option Tag) (style : Style) (text : String)
  | sequence (tag : Option Tag) (items : List Node)
  | mapping (tag : Option Tag) (entries : List (Node × Node))
  | alias (number : Nat)

/-- A root, and the nodes that the numbers of anchors stand for. -/
structure Document where
  root : Node
  anchored : List (Nat × Node)

/-- The node that an alias stands for. Aliases bear no anchors, so one step is enough. -/
def Document.resolve (d : Document) : Node → Node
  | .alias number => (d.anchored.lookup number).getD .void
  | node => node

end Yaml

end SpectrumViewer
