import SpectrumViewer.Yaml.Node.Reading

set_option autoImplicit false

/-!
From tokens to nodes. Each function reads one construct and leaves the tokens behind it; a node that
is not there is an empty plain scalar.
-/

namespace SpectrumViewer

namespace Yaml

namespace Parse

/-- The construct that a node must be, where it matters: block collections only outside of flow
collections, sequences without an indentation of their own only as keys and values. -/
structure Place where
  block : Bool
  indentless : Bool

def inFlow : Place := ⟨false, false⟩
def inSequence : Place := ⟨true, false⟩
def inMapping : Place := ⟨true, true⟩

/-- Whether a mapping goes on where a node could stand. -/
def endsMappingNode (t : Option Token) : Bool :=
  t = some .key || t = some .value || t = some .blockEnd

mutual

def node : (fuel : Nat) → Place → Parse Node
  | 0, _ => throw .unexpected
  | fuel + 1, place => do
    match ← next with
    | some (.alias name) =>
      advance
      return .alias (← aliasNumber name)
    | _ =>
      let (anchor, tag) ← properties
      let serial ← anchor.mapM anchorNode
      let n ← content fuel place anchor.isSome tag
      match serial with
      | some serial => modify fun s => { s with nodes := (serial, n) :: s.nodes }
      | none => pure ()
      return n

def content : (fuel : Nat) → Place → (anchored : Bool) → Option Tag → Parse Node
  | 0, _, _, _ => throw .unexpected
  | fuel + 1, place, anchored, tag => do
    match ← next with
    | some .blockEntry =>
      if place.indentless then return .sequence tag (← indentlessItems fuel)
      else if anchored ∨ tag.isSome then return .scalar tag .plain ""
      else throw .unexpected
    | some (.scalar style text) =>
      advance
      return .scalar tag style text
    | some .flowSequenceStart =>
      advance
      return .sequence tag (← flowItems fuel true)
    | some .flowMappingStart =>
      advance
      return .mapping tag (← flowEntries fuel true)
    | t =>
      if place.block ∧ t = some .blockSequenceStart then
        advance
        return .sequence tag (← blockItems fuel)
      else if place.block ∧ t = some .blockMappingStart then
        advance
        return .mapping tag (← blockEntries fuel)
      else if anchored ∨ tag.isSome then return .scalar tag .plain ""
      else throw .unexpected

/-- The items of a block sequence up to its end. -/
def blockItems : (fuel : Nat) → Parse (List Node)
  | 0 => throw .unexpected
  | fuel + 1 => do
    match ← next with
    | some .blockEntry =>
      advance
      let item ←
        if ← nextIs fun t => t = some .blockEntry || t = some .blockEnd then pure emptyScalar
        else node fuel inSequence
      return item :: (← blockItems fuel)
    | some .blockEnd => advance; return []
    | _ => throw .unexpected

/-- The items of a sequence that is indented no more than its key. -/
def indentlessItems : (fuel : Nat) → Parse (List Node)
  | 0 => throw .unexpected
  | fuel + 1 => do
    match ← next with
    | some .blockEntry =>
      advance
      let item ←
        if ← nextIs fun t => t = some .blockEntry || endsMappingNode t then pure emptyScalar
        else node fuel inSequence
      return item :: (← indentlessItems fuel)
    | _ => return []

/-- The entries of a block mapping up to its end. -/
def blockEntries : (fuel : Nat) → Parse (List (Node × Node))
  | 0 => throw .unexpected
  | fuel + 1 => do
    match ← next with
    | some .key =>
      advance
      let k ← if ← nextIs endsMappingNode then pure emptyScalar else node fuel inMapping
      let v ←
        if (← next) = some .value then do
          advance
          if ← nextIs endsMappingNode then pure emptyScalar else node fuel inMapping
        else pure emptyScalar
      return (k, v) :: (← blockEntries fuel)
    | some .blockEnd => advance; return []
    | _ => throw .unexpected

/-- The items of a flow sequence up to its end. A pair of key and value is a mapping of its own. -/
def flowItems : (fuel : Nat) → (first : Bool) → Parse (List Node)
  | 0, _ => throw .unexpected
  | fuel + 1, first => do
    if (← next) = some .flowSequenceEnd then
      advance
      return []
    if !first then
      if (← next) = some .flowEntry then advance else throw .unexpected
    match ← next with
    | some .flowSequenceEnd => advance; return []
    | some .key =>
      advance
      let pair ← flowPair fuel
      return .mapping none [pair] :: (← flowItems fuel false)
    | _ =>
      let item ← node fuel inFlow
      return item :: (← flowItems fuel false)

/-- A pair in a flow sequence. Where its key is missing the token in its place is passed over. -/
def flowPair : (fuel : Nat) → Parse (Node × Node)
  | 0 => throw .unexpected
  | fuel + 1 => do
    let k ←
      if ← nextIs fun t =>
          t = some .value || t = some .flowEntry || t = some .flowSequenceEnd then do
        advance
        pure emptyScalar
      else node fuel inFlow
    let v ←
      if (← next) = some .value then do
        advance
        if ← nextIs fun t => t = some .flowEntry || t = some .flowSequenceEnd then pure emptyScalar
        else node fuel inFlow
      else pure emptyScalar
    return (k, v)

/-- The entries of a flow mapping up to its end. A node without a key's mark has no value. -/
def flowEntries : (fuel : Nat) → (first : Bool) → Parse (List (Node × Node))
  | 0, _ => throw .unexpected
  | fuel + 1, first => do
    if (← next) = some .flowMappingEnd then
      advance
      return []
    if !first then
      if (← next) = some .flowEntry then advance else throw .unexpected
    let ends (t : Option Token) : Bool := t = some .flowEntry || t = some .flowMappingEnd
    match ← next with
    | some .flowMappingEnd => advance; return []
    | some .key =>
      advance
      let k ←
        if ← nextIs fun t => t = some .value || ends t then pure emptyScalar
        else node fuel inFlow
      let v ←
        if (← next) = some .value then do
          advance
          if ← nextIs ends then pure emptyScalar else node fuel inFlow
        else pure emptyScalar
      return (k, v) :: (← flowEntries fuel false)
    | _ =>
      let k ← node fuel inFlow
      return (k, emptyScalar) :: (← flowEntries fuel false)

end

end Parse

end Yaml

end SpectrumViewer
