import SpectrumViewer.Yaml.Literal
import SpectrumViewer.Yaml.Scalar.Quoted
import SpectrumViewer.Yaml.Token.Basic

set_option autoImplicit false

/-!
Writing a text as the scalar of an entry in a block mapping. A text is written plain where a plain
scalar stands for that very text, else between single quotes; a text of several lines is written as
a literal block, and what none of these can hold is written between double quotes.
-/

namespace SpectrumViewer

namespace Yaml

namespace Scalar

/-- The characters that stand for themselves outside of double quotes. -/
def isPrintable (c : Char) : Bool :=
  isAllowed c && c ≠ '\t' && c ≠ '\r' && c ≠ nextLine && c ≠ byteOrderMark

/-- Two characters side by side, each with a property. -/
def hasNeighbours (p q : Char → Bool) : List Char → Bool
  | c :: d :: rest => (p c && q d) || hasNeighbours p q (d :: rest)
  | _ => false

def isBlankChar (c : Char) : Bool := c = ' '

/-- Characters that have a meaning of their own at the start of a plain scalar. -/
def leadIndicators : List Char :=
  ['#', ',', '[', ']', '\x7b', '\x7d', '&', '*', '!', '|', '>', '\'', '"', '%', '@', '\x60']

def startsWithIndicator : List Char → Bool
  | '-' :: '-' :: '-' :: _ => true
  | '.' :: '.' :: '.' :: _ => true
  | c :: rest => leadIndicators.contains c || ((c = '?' || c = '-') && endsWord rest)
  | [] => false

/-- A colon that ends a key, or a number sign that starts a comment. -/
def hasIndicator (cs : List Char) : Bool :=
  cs.getLast? = some ':' || hasNeighbours (· = ':') isSpaceOrBreak cs ||
    hasNeighbours isSpaceOrBreak (· = '#') cs

/-- Whether a plain scalar on one line can hold a text. -/
def isPlain (cs : List Char) : Bool :=
  !Literal.isAmbiguous cs && !cs.any isBreak && cs.head? ≠ some ' ' && cs.getLast? ≠ some ' ' &&
    !startsWithIndicator cs && !hasIndicator cs

def styleOf (cs : List Char) : Style :=
  if !cs.all isPrintable || hasNeighbours isBlankChar isBreak cs then .doubleQuoted
  else if cs.contains '\n' then
    if cs.getLast? = some ' ' then .doubleQuoted else .literal
  else if isPlain cs then .plain
  else if hasNeighbours isBreak isBlankChar cs then .doubleQuoted
  else .singleQuoted

def indentation (indent : Nat) : List Char := List.replicate indent ' '

/-- A text between single quotes, and whether a line has just begun. Quotes are written twice, and
lines are indented. -/
def singleQuoted (indent : Nat) (lineStart : Bool) : List Char → List Char
  | [] => if lineStart then indentation indent else []
  | c :: cs =>
    if isBreak c then c :: singleQuoted indent true cs
    else
      (if lineStart then indentation indent else []) ++
        (if c = '\'' then ['\'', '\''] else [c]) ++ singleQuoted indent false cs

def hexDigits (width n : Nat) : List Char :=
  let ds := (Nat.toDigits 16 n).map Char.toUpper
  List.replicate (width - ds.length) '0' ++ ds

/-- The escape sequence of a character behind its backslash. -/
def escapeSequence (c : Char) : List Char :=
  match Quoted.escapes.find? (·.2 = c) with
  | some (letter, _) => [letter]
  | none =>
    let n := c.toNat
    if n < 0x100 then 'x' :: hexDigits 2 n
    else if n < 0x10000 then 'u' :: hexDigits 4 n
    else 'U' :: hexDigits 8 n

def doubleQuotedChar (c : Char) : List Char :=
  if !isPrintable c || isBreak c || c = '"' || c = '\\' then '\\' :: escapeSequence c else [c]

/-- The lines of a literal block, each indented unless it is empty. -/
def literalLines (indent : Nat) (lineStart : Bool) : List Char → List Char
  | [] => []
  | c :: cs =>
    if isBreak c then c :: literalLines indent true cs
    else (if lineStart then indentation indent else []) ++ c :: literalLines indent false cs

/-- What follows the bar of a literal block: the width of one level of indentation, where the text
does not show it, and whether the breaks at the end are dropped, all kept, or one. -/
def literalHeader (cs : List Char) : List Char :=
  let startsBlank := (cs.head?.map fun c => c = ' ' || isBreak c).getD false
  (if startsBlank then ['2'] else []) ++
    match cs.reverse with
    | c :: rest =>
      if !isBreak c then ['-']
      else if (rest.head?.map isBreak).getD true then ['+']
      else []
    | [] => ['-']

/-- A text as a literal block, up to the end of its last line. -/
def literal (indent : Nat) (cs : List Char) : List Char :=
  '|' :: literalHeader cs ++ '\n' :: literalLines indent true cs ++
    if (cs.getLast?.map isBreak).getD false then [] else ['\n']

/-- A text as a scalar whose further lines are indented, up to the end of its last line. -/
def written (indent : Nat) (cs : List Char) : List Char :=
  match styleOf cs with
  | .plain => cs ++ ['\n']
  | .singleQuoted => '\'' :: singleQuoted indent false cs ++ ['\'', '\n']
  | .literal => literal indent cs
  | _ => '"' :: cs.flatMap doubleQuotedChar ++ ['"', '\n']

end Scalar

end Yaml

end SpectrumViewer
