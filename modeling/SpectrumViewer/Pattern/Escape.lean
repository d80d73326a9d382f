import SpectrumViewer.Pattern.Reading
import SpectrumViewer.Text.Hexadecimal

set_option autoImplicit false

/-!
The least parts of a pattern: single characters, the dot, borders, and escapes with a backslash.
-/

namespace SpectrumViewer

namespace Pattern

/-- A least part as it is written. -/
inductive Piece where
  /-- A character. Written as an octet it is one where a pattern is about octets. -/
  | literal (c : Char) (octet : Bool)
  | dot
  | border (b : Border)
  /-- A border that depends on what a word is. -/
  | wordBorder (b : Border)
  /-- One of the classes that are written with a backslash, or the characters outside of it. -/
  | known (set : CharSet) (negated : Bool)
  /-- A class of characters with a Unicode property. -/
  | property
  deriving DecidableEq, Repr

/-- Characters that can be escaped and then stand for themselves. -/
def isEscapable (c : Char) : Bool :=
  decide (c.toNat < 0x80) && !c.isAlphanum && c ≠ '<' && c ≠ '>'

/-- Letters behind a backslash that stand for control characters. -/
def control? : Char → Option Char
  | 'a' => some '\x07'
  | 'f' => some '\x0C'
  | 't' => some '\t'
  | 'n' => some '\n'
  | 'r' => some '\r'
  | 'v' => some '\x0B'
  | _ => none

/-- Letters behind a backslash that stand for classes. -/
def known? : Char → Option Piece
  | 'd' => some (.known .digit false)
  | 'D' => some (.known .digit true)
  | 's' => some (.known .space false)
  | 'S' => some (.known .space true)
  | 'w' => some (.known .word false)
  | 'W' => some (.known .word true)
  | _ => none

def border? : Char → Option Piece
  | 'A' => some (.border .textStart)
  | 'z' => some (.border .textEnd)
  | 'B' => some (.wordBorder .noWordBorder)
  | '<' => some (.wordBorder .wordStart)
  | '>' => some (.wordBorder .wordEnd)
  | _ => none

def namedBorder? (name : String) : Option Border :=
  if name = "start" then some .wordStart
  else if name = "end" then some .wordEnd
  else if name = "start-half" then some .wordStartHalf
  else if name = "end-half" then some .wordEndHalf
  else none

namespace Parse

/-- Some hexadecimal digits from the next character on. -/
def hexDigits : (count : Nat) → Parse (List Char)
  | 0 => return []
  | count + 1 => do
    match ← next with
    | none => fail .escapeEnd (← here)
    | some c =>
      if !Text.isHex c then fail .hexDigit (← atNext)
      advanceSpace
      return c :: (← hexDigits count)

/-- Hexadecimal digits up to a closing brace. The brace before them stands at `brace`. -/
def hexBraced (brace : Nat) : (fuel : Nat) → Parse (List Char)
  | 0 => do fail .escapeEnd (← since brace)
  | fuel + 1 => do
    match ← next with
    | none => fail .escapeEnd (← since brace)
    | some c =>
      if c = '\x7d' then return []
      if !Text.isHex c then fail .hexDigit (← atNext)
      advanceSpace
      return c :: (← hexBraced brace fuel)

/-- The digits that a letter before them asks for. -/
def hexWidth (letter : Char) : Nat := if letter = 'x' then 2 else if letter = 'u' then 4 else 8

/-- A character by its code, from the letter of the escape on. -/
def hex (letter : Char) : Parse Piece := do
  advanceSpace
  let start ← place
  match ← next with
  | none => fail .escapeEnd (← here)
  | some '\x7b' =>
    advanceSpace
    let digits ← hexBraced start ((← get).rest.length + 1)
    let inside : Span := ⟨start + 1, ← place⟩
    advanceSpace
    if digits = [] then fail .hexEmpty (← since start)
    match Text.charOfHex? digits with
    | some c => return .literal c false
    | none => fail .hexRange inside
  | some _ =>
    match Text.charOfHex? (← hexDigits (hexWidth letter)) with
    | some c => return .literal c (letter = 'x')
    | none => fail .hexRange (← since start)

/-- Passes over the name of a property up to its closing brace. -/
def propertyName : (fuel : Nat) → Parse Unit
  | 0 => do fail .escapeEnd (← here)
  | fuel + 1 => do
    advanceSpace
    match ← next with
    | none => fail .escapeEnd (← here)
    | some c => if c = '\x7d' then advance else propertyName fuel

/-- A class by a property, from the letter of the escape on. -/
def property : Parse Piece := do
  advanceSpace
  match ← next with
  | none => fail .escapeEnd (← here)
  | some c =>
    if c = '\x7b' then propertyName ((← get).rest.length + 1)
    else if c = '\\' then fail .propertyName (← atNext)
    else advanceSpace
    return .property

/-- The name in braces that may follow the sign of a word border. -/
def borderName : (fuel : Nat) → Parse (List Char)
  | 0 => return []
  | fuel + 1 => do
    match ← next with
    | none => return []
    | some c =>
      if c.isAlpha || c = '-' then
        advanceSpace
        return c :: (← borderName fuel)
      else return []

/-- The border of a word, behind its letter. What stands in braces is left to be read as a count
unless it begins like a name. The backslash stands at `start`. -/
def wordBorder (start : Nat) : Parse Border := do
  if (← next) ≠ some '\x7b' then return .wordBorder
  let before ← get
  let brace ← place
  advanceSpace
  match ← next with
  | none => fail .borderEnd (← since start)
  | some c =>
    if !(c.isAlpha || c = '-') then
      set before
      return .wordBorder
    let inside ← place
    let name ← borderName ((← get).rest.length + 1)
    if (← next) ≠ some '\x7d' then fail .borderOpen (← since brace)
    let named ← since inside
    advance
    match namedBorder? (String.ofList name) with
    | some b => return b
    | none => fail .borderUnknown named

/-- An escape and its span, from the backslash on. -/
def escape : Parse (Piece × Span) := do
  let start ← place
  advance
  match ← next with
  | none => fail .escapeEnd (← since start)
  | some c =>
    if c.isDigit then fail .backReference ⟨start, (← place) + 1⟩
    let piece ←
      if c = 'x' ∨ c = 'u' ∨ c = 'U' then hex c
      else if c = 'p' ∨ c = 'P' then property
      else do
        advance
        if isEscapable c then pure (.literal c false)
        else if c = 'b' then pure (.wordBorder (← wordBorder start))
        else match control? c, known? c <|> border? c with
          | some control, _ => pure (.literal control false)
          | none, some piece => pure piece
          | none, none => fail .escapeUnknown (← since start)
    return (piece, ← since start)

def literal (c : Char) (octet : Bool) (span : Span) : Parse Pattern := do
  let flags := (← get).flags
  if flags.unicode then
    if flags.anyCase then failLate .noCases span
    return .one (.single c)
  else
    if octet && decide (0x80 ≤ c.toNat) then failLate .noText span
    return .one (if flags.anyCase && c.isAlpha then .anyCase (.single c) else .single c)

def dotSet (flags : Flags) : CharSet :=
  if flags.dotAll then .compl .empty
  else if flags.anyLineEnd then .compl (.ranges [('\n', '\n'), ('\r', '\r')])
  else .compl (.single '\n')

/-- A class that is written with a backslash. Those of Unicode would need a table. -/
def knownSet (s : CharSet) (negated : Bool) (span : Span) : Parse CharSet := do
  if (← get).flags.unicode then failLate .noTable span
  else if negated then failLate .noText span
  return if negated then .compl s else s

def propertySet (span : Span) : Parse CharSet := do
  failLate (if (← get).flags.unicode then .noProperty else .noUnicode) span
  return .empty

def meaning (piece : Piece) (span : Span) : Parse Pattern := do
  let flags := (← get).flags
  match piece with
  | .literal c octet => literal c octet span
  | .dot =>
    if !flags.unicode then failLate .noText span
    return .one (dotSet flags)
  | .border b => return .border b
  | .wordBorder b =>
    if flags.unicode then modify fun s => { s with needsWords := true }
    return .border b
  | .known set negated => return .one (← knownSet set negated span)
  | .property => return .one (← propertySet span)

/-- The sign of a line's start, which is that of the text unless lines are asked for. -/
def startSign (flags : Flags) : Border :=
  if !flags.multiLine then .textStart
  else if flags.anyLineEnd then .anyLineStart
  else .lineStart

def endSign (flags : Flags) : Border :=
  if !flags.multiLine then .textEnd
  else if flags.anyLineEnd then .anyLineEnd
  else .lineEnd

/-- A least part, whose first character is known. -/
def piece (c : Char) : Parse Pattern := do
  let flags := (← get).flags
  if c = '\\' then
    let (piece, span) ← escape
    meaning piece span
  else
    let span ← atNext
    advance
    meaning (match c with
      | '.' => .dot
      | '^' => .border (startSign flags)
      | '$' => .border (endSign flags)
      | c => .literal c false) span

end Parse

end Pattern

end SpectrumViewer
