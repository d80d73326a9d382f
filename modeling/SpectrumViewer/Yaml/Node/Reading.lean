import SpectrumViewer.Yaml.Error
import SpectrumViewer.Yaml.Node.Basic

set_option autoImplicit false

/-!
The state of a reading of tokens, and what stands in front of a node: its anchor and its tag.

Anchors are numbered by how many names are known before them. A name that is given again does not
add to that count, so the next new name shares its number, and an alias stands for the node that
was given its number last.
-/

namespace SpectrumViewer

namespace Yaml

/-- The state of a reading: the tokens left, the handles of tags, the numbers of anchor names, and
the nodes that bear anchors, each under a serial number of its own, with the serial number that an
anchor's number stands for (the last one first). -/
structure Reading where
  tokens : List Token
  handles : List (String × Tag)
  names : List (String × Nat)
  serials : List (Nat × Nat)
  nodes : List (Nat × Node)

abbrev Parse (α : Type) := StateT Reading (Except Error) α

namespace Parse

def next : Parse (Option Token) := do return (← get).tokens.head?

def advance : Parse Unit := modify fun s => { s with tokens := s.tokens.drop 1 }

/-- Whether one of some tokens comes next, the end included. -/
def nextIs (p : Option Token → Bool) : Parse Bool := do return p (← next)

def emptyScalar : Node := .scalar none .plain ""

/-- Gives an anchor a number, and the node at hand a serial number. -/
def anchorNode (name : String) : Parse Nat := do
  let s ← get
  let serial := s.serials.length
  let number := s.names.length
  let names :=
    if (s.names.lookup name).isSome then
      s.names.map fun (n, k) => if n = name then (n, number) else (n, k)
    else (name, number) :: s.names
  set { s with names, serials := (number, serial) :: s.serials }
  return serial

/-- The number of a name that was given before. -/
def aliasNumber (name : String) : Parse Nat := do
  match (← get).names.lookup name with
  | some number => return number
  | none => throw (.unknownAnchor name)

def expandTag (handle : String) (suffix : Tag) : Parse Tag := do
  if handle = "" then return suffix
  match (← get).handles.lookup handle with
  | some expansion => return expansion ++ suffix
  | none => throw .tag

/-- An anchor and a tag, in either order. -/
def properties : Parse (Option String × Option Tag) := do
  match ← next with
  | some (.anchor name) =>
    advance
    match ← next with
    | some (.tag handle suffix) =>
      advance
      return (some name, some (← expandTag handle suffix))
    | _ => return (some name, none)
  | some (.tag handle suffix) =>
    advance
    match ← next with
    | some (.anchor name) =>
      advance
      return (some name, some (← expandTag handle suffix))
    | _ => return (none, some (← expandTag handle suffix))
  | _ => return (none, none)

end Parse

end Yaml

end SpectrumViewer
