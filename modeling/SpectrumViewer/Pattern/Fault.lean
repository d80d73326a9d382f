import SpectrumViewer.Text.Blank

set_option autoImplicit false

/-!
Why a text is no pattern, and how that is shown: the text is repeated with carets below the part
that is at fault.
-/

namespace SpectrumViewer

namespace Pattern

/-- A part of a text, by the numbers of characters before its start and before its end. -/
structure Span where
  start : Nat
  stop : Nat
  deriving DecidableEq, Repr

inductive Fault.Kind where
  | classEscape
  | classRangeOrder
  | classRangeEnd
  | classOpen
  | decimalRange
  | hexEmpty
  | hexRange
  | hexDigit
  | escapeEnd
  | escapeUnknown
  | flagNegationLast
  | flagTwice
  | flagNegationTwice
  | flagEnd
  | flagUnknown
  | nameTwice
  | nameEmpty
  | nameCharacter
  | nameEnd
  | groupOpen
  | groupClosed
  | countOrder
  | countMissing
  | countOpen
  | nothingRepeated
  | borderOpen
  | borderUnknown
  | borderEnd
  | propertyName
  | backReference
  | lookAround
  | noUnicode
  | noText
  | noProperty
  | noTable
  | noCases
  deriving DecidableEq, Repr

inductive Fault where
  /-- A part of a text is at fault, perhaps because of an earlier part. -/
  | inText (text : List Char) (kind : Fault.Kind) (span : Span) (earlier : Option Span)
  /-- The borders of words need a table of all letters, which is not there. -/
  | noWordTable
  /-- Finding the pattern would take too much memory. -/
  | tooLarge
  deriving DecidableEq, Repr

namespace Fault

def Kind.message : Kind → String
  | .classEscape => "invalid escape sequence found in character class"
  | .classRangeOrder => "invalid character class range, the start must be <= the end"
  | .classRangeEnd => "invalid range boundary, must be a literal"
  | .classOpen => "unclosed character class"
  | .decimalRange => "decimal literal invalid"
  | .hexEmpty => "hexadecimal literal empty"
  | .hexRange => "hexadecimal literal is not a Unicode scalar value"
  | .hexDigit => "invalid hexadecimal digit"
  | .escapeEnd => "incomplete escape sequence, reached end of pattern prematurely"
  | .escapeUnknown => "unrecognized escape sequence"
  | .flagNegationLast => "dangling flag negation operator"
  | .flagTwice => "duplicate flag"
  | .flagNegationTwice => "flag negation operator repeated"
  | .flagEnd => "expected flag but got end of regex"
  | .flagUnknown => "unrecognized flag"
  | .nameTwice => "duplicate capture group name"
  | .nameEmpty => "empty capture group name"
  | .nameCharacter => "invalid capture group character"
  | .nameEnd => "unclosed capture group name"
  | .groupOpen => "unclosed group"
  | .groupClosed => "unopened group"
  | .countOrder => "invalid repetition count range, the start must be <= the end"
  | .countMissing => "repetition quantifier expects a valid decimal"
  | .countOpen => "unclosed counted repetition"
  | .nothingRepeated => "repetition operator missing expression"
  | .borderOpen =>
    "special word boundary assertion is either unclosed or contains an invalid character"
  | .borderUnknown =>
    "unrecognized special word boundary assertion, valid choices are: start, end, start-half " ++
      "or end-half"
  | .borderEnd =>
    "found either the beginning of a special word boundary or a bounded repetition on a \\b " ++
      "with an opening brace, but no closing brace"
  | .propertyName => "invalid Unicode character class"
  | .backReference => "backreferences are not supported"
  | .lookAround => "look-around, including look-ahead and look-behind, is not supported"
  | .noUnicode => "Unicode not allowed here"
  | .noText => "pattern can match invalid UTF-8"
  | .noProperty => "Unicode property not found"
  | .noTable =>
    "Unicode-aware Perl class not found (make sure the unicode-perl feature is enabled)"
  | .noCases =>
    "Unicode-aware case insensitivity matching is not available (make sure the unicode-case " ++
      "feature is enabled)"

/-- A place in a text of several lines, counted from one. -/
structure LinePlace where
  line : Nat
  column : Nat
  deriving DecidableEq, Repr

def placeAfter (front : List Char) : LinePlace :=
  ⟨front.count '\n' + 1, (front.reverse.takeWhile (· ≠ '\n')).length + 1⟩

/-- A line that a line feed ended, without the carriage return that may stand before that. -/
def withoutReturn (line : List Char) : List Char :=
  if line.getLast? = some '\r' then line.dropLast else line

/-- The lines of a text without their ends. What follows the last end is a line unless it is
empty. -/
def lines (text : List Char) : List (List Char) :=
  let pieces := Text.split '\n' text
  let last := pieces.getLast?.getD []
  pieces.dropLast.map withoutReturn ++ (if last = [] then [] else [last])

def blanks (n : Nat) : List Char := List.replicate n ' '

/-- Carets below the columns of some parts of a line, which are in ascending order. -/
def carets (margin : Nat) (parts : List (Nat × Nat)) : List Char :=
  parts.foldl (fun drawn (first, behind) =>
    drawn ++ blanks (margin + (first - 1) - drawn.length) ++
      List.replicate (max 1 (behind - first)) '^') (blanks margin)

/-- A line's number in the columns that all of them take, and a colon. Without numbers there is a
margin instead. -/
def lead (width number : Nat) : List Char :=
  if width = 0 then blanks 4
  else
    let digits := Nat.toDigits 10 number
    blanks (width - digits.length) ++ digits ++ [':', ' ']

/-- The lines of a text, each with the carets that belong below it. -/
def noted (text : List Char) (spans : List Span) : String :=
  let count := (lines text).length + (if text.getLast? = some '\n' then 1 else 0)
  let width := if count ≤ 1 then 0 else (Nat.toDigits 10 count).length
  let places := spans.map fun span =>
    (placeAfter (text.take span.start), placeAfter (text.take span.stop))
  String.join ((lines text).zipIdx.map fun (line, i) =>
    let parts := (places.filter fun (first, behind) =>
      decide (first.line = i + 1 ∧ behind.line = i + 1)).map fun (first, behind) =>
        (first.column, behind.column)
    let below := if parts = [] then [] else carets (lead width 1).length parts ++ ['\n']
    String.ofList (lead width (i + 1) ++ line ++ ['\n'] ++ below))

/-- Words for the parts that go over several lines. -/
def longParts (text : List Char) (spans : List Span) : List String :=
  spans.filterMap fun span =>
    let first := placeAfter (text.take span.start)
    let behind := placeAfter (text.take span.stop)
    if first.line = behind.line then none
    else some (s!"on line {first.line} (column {first.column}) through line {behind.line} " ++
      s!"(column {behind.column - 1})")

def divider : String := String.ofList (List.replicate 79 '~') ++ "\n"

def message : Fault → String
  | .noWordTable => "error building NFA"
  | .tooLarge => "Compiled regex exceeds size limit of 10485760 bytes."
  | .inText text kind span earlier =>
    let spans := match earlier with
      | none => [span]
      | some e => if e.start ≤ span.start then [e, span] else [span, e]
    let body :=
      if text.contains '\n' then
        let long := longParts text spans
        divider ++ noted text spans ++ divider ++
          (if long = [] then "" else "\n".intercalate long ++ "\n")
      else noted text spans
    "regex parse error:\n" ++ body ++ "error: " ++ kind.message

end Fault

end Pattern

end SpectrumViewer
