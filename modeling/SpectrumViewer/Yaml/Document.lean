import SpectrumViewer.Yaml.Node.Parser
import SpectrumViewer.Yaml.Token.Scanner

set_option autoImplicit false

/-!
From tokens to a document: directives, the line that starts it, and its root.
-/

namespace SpectrumViewer

namespace Yaml

namespace Parse

/-- Directives before a document: one version, which must be 1.1 or 1.2, and handles of tags, each
declared once. -/
def directives : (fuel : Nat) → (versionSeen : Bool) → List (String × Tag) →
    Parse (List (String × Tag))
  | 0, _, _ => throw .unexpected
  | fuel + 1, versionSeen, handles => do
    match ← next with
    | some (.version major minor) =>
      if versionSeen ∨ major ≠ 1 ∨ (minor ≠ 1 ∧ minor ≠ 2) then throw .directive
      advance
      directives fuel true handles
    | some (.tagHandle handle expansion) =>
      if (handles.lookup handle).isSome then throw .directive
      advance
      directives fuel versionSeen (handles ++ [(handle, expansion)])
    | _ => return handles

/-- The handles that every document knows unless it declares them itself. -/
def commonHandles : List (String × Tag) := [("!", Utf8.encode "!"), ("!!", coreTag "")]

/-- The root of the first document. Directives need a line that starts the document. -/
def root (fuel : Nat) : Parse Node := do
  let marked (t : Option Token) : Bool :=
    match t with
    | some .documentStart => true
    | some (.version ..) => true
    | some (.tagHandle ..) => true
    | _ => false
  match ← next with
  | none => return .void
  | t =>
    if marked t then
      let declared ← directives fuel false []
      modify fun s => { s with handles := declared ++ commonHandles }
      if (← next) ≠ some .documentStart then throw .unexpected
      advance
      match ← next with
      | none => return emptyScalar
      | some .documentEnd => return emptyScalar
      | t => if marked t then return emptyScalar else node fuel inSequence
    else
      modify fun s => { s with handles := commonHandles }
      node fuel inSequence

end Parse

/-- The document of a stream, which may hold no second one. Every construct but a sequence without
indentation takes a token, so the depth is bounded by their number. -/
def Document.ofTokens? (tokens : List Token) : Except Error Document := do
  let (root, s) ← (Parse.root (3 * tokens.length + 3)).run ⟨tokens, [], [], [], []⟩
  if s.tokens.all (· = .documentEnd) then
    let anchored := s.serials.filterMap fun (number, serial) =>
      (s.nodes.lookup serial).map (number, ·)
    return ⟨root, anchored⟩
  else throw .moreThanOneDocument

def Document.ofText? (text : List Char) : Except Error Document := do
  Document.ofTokens? (← Token.scan text)

end Yaml

end SpectrumViewer
