import SpectrumViewer.Yaml.Scalar.Block
import SpectrumViewer.Yaml.Scalar.Plain
import SpectrumViewer.Yaml.Scalar.Quoted
import SpectrumViewer.Yaml.Token.Property

set_option autoImplicit false

/-!
From a text to its tokens. A key is only known by the colon behind it, so the place of each node
that may turn out to be one is remembered, and its tokens are put there once the colon is met.
-/

namespace SpectrumViewer

namespace Yaml

/-- A node that may be a key: the number of tokens before it, its place, and whether it must be
one, because it starts at the indentation of a block mapping. -/
structure KeyMark where
  tokens : Nat
  position : Position
  required : Bool
  deriving DecidableEq, Repr

/-- The scanner between two tokens: what is left, the tokens so far (the last one first), the
indentation of the block around and those around it, the possible key at each level of flow
collections (the innermost first, the outermost outside of them), and whether a key may start
here. -/
structure Scanner where
  cursor : Cursor
  tokens : List Token
  indent : Int
  outer : List Int
  level : Option KeyMark
  levels : List (Option KeyMark)
  keyAllowed : Bool

namespace Scanner

def start (text : List Char) : Scanner :=
  ⟨⟨uniformBreaks text, .start⟩, [], -1, [], none, [], true⟩

def inFlow (s : Scanner) : Bool := !s.levels.isEmpty

def column (s : Scanner) : Nat := s.cursor.position.column

def emit (s : Scanner) (t : Token) : Scanner := { s with tokens := t :: s.tokens }

/-- Puts a token before all but the first `count` tokens. -/
def insertAt (s : Scanner) (count : Nat) (t : Token) : Scanner :=
  let later := s.tokens.length - count
  { s with tokens := s.tokens.take later ++ t :: s.tokens.drop later }

/-- Nothing may wait for its colon any more; a node that must be a key is an error. -/
def dropKey (s : Scanner) : Except Error Scanner :=
  match s.level with
  | some mark => if mark.required then .error .danglingKey else .ok { s with level := none }
  | none => .ok s

/-- The longest key in octets, for a key without a question mark. -/
def longestKey : Nat := 1024

/-- Whether a node is too far back to be the key of what comes next: a key stands on one line. -/
def stale (now : Position) (mark : KeyMark) : Bool :=
  decide (mark.position.line < now.line ∨ mark.position.offset + longestKey < now.offset)

/-- Forgets the nodes that are too far back, at every level. -/
def dropStale (s : Scanner) : Except Error Scanner := do
  let fresh (mark : Option KeyMark) : Except Error (Option KeyMark) :=
    match mark with
    | some mark =>
      if stale s.cursor.position mark then
        if mark.required then .error .danglingKey else .ok none
      else .ok (some mark)
    | none => .ok none
  return { s with level := ← fresh s.level, levels := ← s.levels.mapM fresh }

/-- Remembers the node that starts here as a possible key. -/
def markKey (s : Scanner) : Except Error Scanner :=
  if s.keyAllowed then do
    let s' ← s.dropKey
    let required := !s.inFlow && s.indent = s.column
    return { s' with level := some ⟨s.tokens.length, s.cursor.position, required⟩ }
  else .ok s

/-- Ends the blocks that are indented beyond a column. -/
def closeBlocks (column : Int) (tokens : List Token) (indent : Int) :
    List Int → List Token × Int × List Int
  | [] => (tokens, indent, [])
  | next :: outer =>
    if column < indent then closeBlocks column (.blockEnd :: tokens) next outer
    else (tokens, indent, next :: outer)

def unindent (s : Scanner) (column : Int) : Scanner :=
  if s.inFlow then s
  else
    let (tokens, indent, outer) := closeBlocks column s.tokens s.indent s.outer
    { s with tokens, indent, outer }

/-- Opens a block at a column, unless one is open there or further right. Its token goes behind
the first `count` tokens. -/
def indentTo (s : Scanner) (column : Nat) (count : Nat) (t : Token) : Scanner :=
  if s.inFlow ∨ (column : Int) ≤ s.indent then s
  else
    { s with indent := column, outer := s.indent :: s.outer }.insertAt count t

/-- Consumes characters and emits their token. -/
def take (s : Scanner) (count : Nat) (t : Token) : Scanner :=
  { s with cursor := s.cursor.drop count }.emit t

/-- Skips spaces, comments and breaks. Outside of flow collections a break allows a key, and a tab
may not stand where one is allowed. A byte order mark may start a line. -/
def skipBetween (inFlow comment keyAllowed : Bool) (p : Position) :
    List Char → Cursor × Bool
  | [] => (⟨[], p⟩, keyAllowed)
  | c :: rest =>
    if isBreak c then skipBetween inFlow false (keyAllowed || !inFlow) (p.next c) rest
    else if comment then skipBetween inFlow true keyAllowed (p.next c) rest
    else if c = ' ' ∨ (c = '\t' ∧ (inFlow ∨ ¬ keyAllowed)) then
      skipBetween inFlow false keyAllowed (p.next c) rest
    else if c = byteOrderMark ∧ p.column = 0 then
      skipBetween inFlow false keyAllowed (p.next c) rest
    else if c = '#' then skipBetween inFlow true keyAllowed (p.next c) rest
    else (⟨c :: rest, p⟩, keyAllowed)

def skip (s : Scanner) : Scanner :=
  let (cursor, keyAllowed) :=
    skipBetween s.inFlow false s.keyAllowed s.cursor.position s.cursor.rest
  { s with cursor, keyAllowed }

def documentMark (s : Scanner) (t : Token) : Except Error Scanner := do
  let s ← (s.unindent (-1)).dropKey
  return { s with keyAllowed := false }.take 3 t

def directive (s : Scanner) : Except Error Scanner := do
  let s ← (s.unindent (-1)).dropKey
  let (token, cursor) ← Property.readDirective s.cursor
  return { s with keyAllowed := false, cursor }.emit token

def flowStart (s : Scanner) (t : Token) : Except Error Scanner := do
  let s ← s.markKey
  return { s with level := none, levels := s.level :: s.levels, keyAllowed := true }.take 1 t

def flowEnd (s : Scanner) (t : Token) : Except Error Scanner := do
  let s ← s.dropKey
  let s := match s.levels with
    | level :: levels => { s with level, levels }
    | [] => s
  return { s with keyAllowed := false }.take 1 t

def flowEntry (s : Scanner) : Except Error Scanner := do
  let s ← s.dropKey
  return { s with keyAllowed := true }.take 1 .flowEntry

/-- Opens a block here, for a token that needs one. -/
def openBlock (s : Scanner) (t : Token) : Except Error Scanner :=
  if s.inFlow then .ok s
  else if s.keyAllowed then .ok (s.indentTo s.column s.tokens.length t)
  else .error .misplaced

def blockEntry (s : Scanner) : Except Error Scanner := do
  let s ← (← s.openBlock .blockSequenceStart).dropKey
  return { s with keyAllowed := true }.take 1 .blockEntry

def key (s : Scanner) : Except Error Scanner := do
  let s ← (← s.openBlock .blockMappingStart).dropKey
  return { s with keyAllowed := !s.inFlow }.take 1 .key

/-- A colon makes the possible key before it a key. Without one it belongs to a key with a
question mark. -/
def value (s : Scanner) : Except Error Scanner :=
  match s.level with
  | some mark =>
    let s := (s.insertAt mark.tokens .key).indentTo mark.position.column mark.tokens
      .blockMappingStart
    .ok ({ s with level := none, keyAllowed := false }.take 1 .value)
  | none => do
    let s ← s.openBlock .blockMappingStart
    return { s with keyAllowed := !s.inFlow }.take 1 .value

/-- A node that may be a key, read by `read`. -/
def node (s : Scanner) (read : Cursor → Except Error (Token × Cursor)) :
    Except Error Scanner := do
  let s ← s.markKey
  let (token, cursor) ← read s.cursor
  return { s with keyAllowed := false, cursor }.emit token

def quotedScalar (s : Scanner) (double : Bool) : Except Error Scanner :=
  s.node fun c => do
    let (text, c) ← Quoted.read double c
    return (.scalar (if double then .doubleQuoted else .singleQuoted) (String.ofList text), c)

def blockScalar (s : Scanner) (folded : Bool) : Except Error Scanner := do
  let s ← s.dropKey
  let (text, cursor) ← Block.read folded s.indent s.cursor
  return { s with keyAllowed := true, cursor }.emit
    (.scalar (if folded then .folded else .literal) (String.ofList text))

def plainScalar (s : Scanner) : Except Error Scanner := do
  let s ← s.markKey
  let read ← Plain.read ⟨s.inFlow, s.indent + 1⟩ s.cursor
  return { s with keyAllowed := read.newLine, cursor := read.cursor }.emit
    (.scalar .plain (String.ofList read.text))

def indicators : List Char :=
  ['-', '?', ':', ',', '[', ']', '\x7b', '\x7d', '#', '&', '*', '!', '|', '>', '\'', '"', '%',
   '@', '\x60']

/-- Whether a plain scalar may start with a character. -/
def startsPlain (inFlow : Bool) (c : Char) (rest : List Char) : Bool :=
  !(isSpaceOrBreak c || indicators.contains c) ||
    (c = '-' && !(rest.head?.map isSpace).getD false) ||
    (!inFlow && (c = '?' || c = ':') && !endsWord rest)

def token (s : Scanner) (c : Char) (rest : List Char) : Except Error Scanner :=
  let atStart := s.column = 0
  if atStart ∧ c = '%' then s.directive
  else if atStart ∧ atDocumentMark (c :: rest) then
    s.documentMark (if c = '-' then .documentStart else .documentEnd)
  else if c = '[' then s.flowStart .flowSequenceStart
  else if c = '\x7b' then s.flowStart .flowMappingStart
  else if c = ']' then s.flowEnd .flowSequenceEnd
  else if c = '\x7d' then s.flowEnd .flowMappingEnd
  else if c = ',' then s.flowEntry
  else if c = '-' ∧ endsWord rest then s.blockEntry
  else if c = '?' ∧ (s.inFlow ∨ endsWord rest) then s.key
  else if c = ':' ∧ (s.inFlow ∨ endsWord rest) then s.value
  else if c = '*' then s.node fun c => do
    let (name, c) ← Property.readName c
    return (.alias name, c)
  else if c = '&' then s.node fun c => do
    let (name, c) ← Property.readName c
    return (.anchor name, c)
  else if c = '!' then s.node (Property.readTag s.inFlow)
  else if (c = '|' ∨ c = '>') ∧ ¬ s.inFlow then s.blockScalar (c = '>')
  else if c = '\'' ∨ c = '"' then s.quotedScalar (c = '"')
  else if startsPlain s.inFlow c rest then s.plainScalar
  else .error .token

/-- The end of the text ends every block. -/
def finish (s : Scanner) : Except Error Scanner := (s.unindent (-1)).dropKey

/-- Scans up to a number of tokens and the end of the text. -/
def run : Nat → Scanner → Except Error Scanner
  | 0, _ => .error .token
  | fuel + 1, s => do
    let s ← s.skip.dropStale
    let s := s.unindent s.column
    match s.cursor.rest with
    | [] => s.finish
    | c :: rest => run fuel (← s.token c rest)

end Scanner

/-- The tokens of a text. Every token but those of indentation takes at least one character. -/
def Token.scan (text : List Char) : Except Error (List Token) := do
  match text.find? (!isAllowed ·) with
  | some c => throw (.character c.toNat)
  | none =>
    let s ← Scanner.run (text.length + 1) (.start text)
    return s.tokens.reverse

end Yaml

end SpectrumViewer
