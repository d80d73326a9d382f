import SpectrumViewer.Text.Hexadecimal
import SpectrumViewer.Text.Utf8
import SpectrumViewer.Yaml.Character
import SpectrumViewer.Yaml.Error
import SpectrumViewer.Yaml.Token.Basic

set_option autoImplicit false

/-!
Reading anchors, aliases, tags and directives.
-/

namespace SpectrumViewer

namespace Yaml

namespace Property

/-- Characters that may follow a name besides spaces and breaks. -/
def nameEnds : List Char := ['?', ':', ',', ']', '\x7d', '%', '@', '\x60']

/-- The name behind the character that marks an anchor or alias. -/
def readName (c : Cursor) : Except Error (String × Cursor) :=
  let (name, c) := (c.drop 1).span isWord
  if name ≠ [] ∧ (endsWord c.rest ∨ (c.rest.head?.map nameEnds.contains).getD false) then
    .ok (String.ofList name, c)
  else .error .anchor

/-- Characters of a tag; those of the second list only where it is written out or declared. -/
def tagCharacters : List Char :=
  [';', '/', '?', ':', '@', '&', '=', '+', '$', '.', '%', '!', '~', '*', '\'', '(', ')']

def isTagCharacter (whole : Bool) (c : Char) : Bool :=
  isWord c || tagCharacters.contains c || (whole && [',', '[', ']'].contains c)

/-- Octets of the character that an octet opens. -/
def escapedWidth? (lead : Nat) : Option Nat :=
  if lead < 0x80 then some 1
  else if 0xC0 ≤ lead ∧ lead < 0xE0 then some 2
  else if 0xE0 ≤ lead ∧ lead < 0xF0 then some 3
  else if 0xF0 ≤ lead ∧ lead < 0xF8 then some 4
  else none

/-- The octets of a text with its percent signs resolved. `owed` counts the octets that an open
sequence still needs, each of which has to be escaped too. -/
def unescape : (owed : Nat) → List Char → Except Error (List UInt8)
  | 0, [] => .ok []
  | _ + 1, [] => .error .tag
  | owed, '%' :: a :: b :: rest =>
    if Text.isHex a ∧ Text.isHex b then
      let octet := Text.hexNumber [a, b]
      let width? := match owed with
        | 0 => escapedWidth? octet
        | _ => if 0x80 ≤ octet ∧ octet < 0xC0 then some owed else none
      match width? with
      | some width => (unescape (width - 1) rest).map (UInt8.ofNat octet :: ·)
      | none => .error .tag
    else .error .tag
  | 0, c :: rest =>
    if c = '%' then .error .tag
    else (unescape 0 rest).map (Utf8.encode (String.singleton c) ++ ·)
  | _ + 1, _ :: _ => .error .tag

/-- A part of a tag with its percent signs resolved. It ends before the first zero. -/
def tagOf (text : List Char) : Except Error Tag :=
  (unescape 0 text).map fun octets => octets.takeWhile (· ≠ 0)

/-- A handle: an exclamation mark, and perhaps a word and a second mark. -/
def readHandle (c : Cursor) : List Char × Cursor :=
  let (name, after) := (c.drop 1).span isWord
  if after.rest.head? = some '!' then ('!' :: (name ++ ['!']), after.drop 1)
  else ('!' :: name, after)

/-- A tag: written out between angle brackets, or a handle with a suffix. A lone exclamation mark
is a tag of its own. -/
def readTag (inFlow : Bool) (c : Cursor) : Except Error (Token × Cursor) := do
  let (handle, suffix, c) ←
    if (c.drop 1).rest.head? = some '<' then do
      let (whole, c) := (c.drop 2).span (isTagCharacter true)
      if whole = [] ∨ c.rest.head? ≠ some '>' then throw .tag
      pure ("", ← tagOf whole, c.drop 1)
    else do
      let (handle, c) := readHandle c
      let (suffix, c) := c.span (isTagCharacter false)
      let closed := handle.length > 1 ∧ handle.getLast? = some '!'
      if closed then
        if suffix = [] then throw .tag
        pure (String.ofList handle, ← tagOf suffix, c)
      else
        let suffix ← tagOf (handle.drop 1 ++ suffix)
        pure (if suffix = [] then ("", Utf8.encode "!", c) else ("!", suffix, c))
  if endsWord c.rest ∨ (inFlow ∧ c.rest.head? = some ',') then
    return (.tag handle suffix, c)
  else throw .tag

/-- The most digits of a version number. -/
def versionDigits : Nat := 9

def readVersionNumber (c : Cursor) : Except Error (Nat × Cursor) :=
  let (digits, c) := c.span Char.isDigit
  if digits = [] ∨ versionDigits < digits.length then .error .directive
  else .ok (digits.foldl (fun n d => 10 * n + (d.toNat - '0'.toNat)) 0, c)

def readVersion (c : Cursor) : Except Error (Token × Cursor) := do
  let (major, c) ← readVersionNumber (c.skip isSpace)
  if c.rest.head? ≠ some '.' then throw .directive
  let (minor, c) ← readVersionNumber (c.drop 1)
  return (.version major minor, c)

def readTagHandle (c : Cursor) : Except Error (Token × Cursor) := do
  let c := c.skip isSpace
  if c.rest.head? ≠ some '!' then throw .directive
  let (handle, c) := readHandle c
  if handle ≠ ['!'] ∧ handle.getLast? ≠ some '!' then throw .directive
  if ¬ (c.rest.head?.map isSpace).getD false then throw .directive
  let (expansion, c) := (c.skip isSpace).span (isTagCharacter true)
  if expansion = [] ∨ ¬ endsWord c.rest then throw .directive
  return (.tagHandle (String.ofList handle) (← tagOf expansion), c)

/-- A directive with its line, from the percent sign on. -/
def readDirective (c : Cursor) : Except Error (Token × Cursor) := do
  let (name, c) := (c.drop 1).span isWord
  if name = [] ∨ ¬ endsWord c.rest then throw .directive
  let (token, c) ←
    if name = "YAML".toList then readVersion c
    else if name = "TAG".toList then readTagHandle c
    else throw .directive
  let c := c.skipComment
  match c.rest with
  | [] => return (token, c)
  | b :: _ => if isBreak b then return (token, c.drop 1) else throw .directive

end Property

end Yaml

end SpectrumViewer
