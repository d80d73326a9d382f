import SpectrumViewer.Text.Hexadecimal
import SpectrumViewer.Yaml.Error
import SpectrumViewer.Yaml.Gap

set_option autoImplicit false

/-!
Quoted scalars. Between single quotes a quote is written twice and nothing else is special;
between double quotes a backslash begins an escape sequence.
-/

namespace SpectrumViewer

namespace Yaml

namespace Quoted

/-- Characters that follow a backslash, and what they stand for. -/
def escapes : List (Char × Char) :=
  [('0', '\x00'), ('a', '\x07'), ('b', '\x08'), ('t', '\t'), ('\t', '\t'), ('n', '\n'),
   ('v', '\x0B'), ('f', '\x0C'), ('r', '\r'), ('e', '\x1B'), (' ', ' '), ('"', '"'),
   ('/', '/'), ('\\', '\\'), ('N', nextLine), ('_', '\u00A0'), ('L', lineSeparator),
   ('P', paragraphSeparator)]

/-- An escape sequence behind its backslash: the character and the number of characters it
takes. -/
def escape? : List Char → Option (Char × Nat)
  | 'x' :: a :: b :: _ => (Text.charOfHex? [a, b]).map (·, 3)
  | 'u' :: a :: b :: c :: d :: _ => (Text.charOfHex? [a, b, c, d]).map (·, 5)
  | 'U' :: a :: b :: c :: d :: e :: f :: g :: h :: _ =>
    (Text.charOfHex? [a, b, c, d, e, f, g, h]).map (·, 9)
  | c :: _ => (escapes.lookup c).map (·, 1)
  | [] => none

/-- Reads on behind a text (its last character first) and a gap, up to a single quote. -/
def readSingle (text : List Char) (gap : Gap) (p : Position) :
    List Char → Except Error (List Char × Cursor)
  | [] => .error .unterminated
  | c :: rest =>
    if isSpace c then readSingle text (gap.addSpace c) (p.next c) rest
    else if isBreak c then readSingle text (gap.addBreak c) (p.next c) rest
    else if p.column = 0 ∧ atDocumentMark (c :: rest) then .error .unterminated
    else if c = '\'' then
      match rest with
      | '\'' :: rest => readSingle ('\'' :: (gap.text ++ text)) .none ((p.next c).next c) rest
      | rest => .ok ((gap.text ++ text).reverse, ⟨rest, p.next c⟩)
    else readSingle (c :: (gap.text ++ text)) .none (p.next c) rest

/-- Reads on behind a text (its last character first) and a gap, up to a double quote. The first
characters may belong to an escape sequence that was already read. -/
def readDouble (skip : Nat) (text : List Char) (gap : Gap) (p : Position) :
    List Char → Except Error (List Char × Cursor)
  | [] => .error .unterminated
  | c :: rest =>
    if skip ≠ 0 then readDouble (skip - 1) text gap (p.next c) rest
    else if isSpace c then readDouble 0 text (gap.addSpace c) (p.next c) rest
    else if isBreak c then readDouble 0 text (gap.addBreak c) (p.next c) rest
    else if p.column = 0 ∧ atDocumentMark (c :: rest) then .error .unterminated
    else if c = '"' then .ok ((gap.text ++ text).reverse, ⟨rest, p.next c⟩)
    else if c = '\\' then
      if (rest.head?.map isBreak).getD false then
        readDouble 1 (gap.text ++ text) (.escaped []) (p.next c) rest
      else match escape? rest with
        | some (e, taken) => readDouble taken (e :: (gap.text ++ text)) .none (p.next c) rest
        | none => .error .escape
    else readDouble 0 (c :: (gap.text ++ text)) .none (p.next c) rest

/-- Reads the quoted scalar that starts at a place, with its opening quote. -/
def read (double : Bool) (c : Cursor) : Except Error (List Char × Cursor) :=
  let inside := c.drop 1
  if double then readDouble 0 [] .none inside.position inside.rest
  else readSingle [] .none inside.position inside.rest

end Quoted

end Yaml

end SpectrumViewer
