import SpectrumViewer.Settings.Field
import SpectrumViewer.Yaml.Scalar.Printer

set_option autoImplicit false

/-!
Settings as a document, field by field. Any of the fields in any order are a document too.
-/

namespace SpectrumViewer

/-- Numbers in documents: a point in every numeral without a power of ten, and such a power only
far from one. -/
def NumeralStyle.document : NumeralStyle where
  tie := .toEven
  positional position := decide (-6 < position ∧ position ≤ 13)
  wholeEnding := ['.', '0']
  nan := ['.', 'n', 'a', 'n']
  infinity := ['.', 'i', 'n', 'f']

namespace Settings

open Yaml

/-- An entry of a mapping up to the end of its last line. -/
def entry (indent : Nat) (name : String) (value : List Char) : List Char :=
  Scalar.indentation indent ++ name.toList ++ ':' :: ' ' :: value

/-- Spaces of one level of indentation. -/
def indentStep : Nat := 2

/-- A word that is a whole line. -/
def line (word : String) : List Char := word.toList ++ ['\n']

def numberLine (x : Binary32) : List Char := NumeralStyle.document.text x ++ ['\n']

def wholeLine (n : Nat) : List Char := line (toString n)

/-- The entries of a framing, one level deep. -/
def framingLines (framing : Framing) : List Char :=
  let text := Scalar.written (2 * indentStep)
  entry indentStep Framing.openingName (text framing.opening.toList) ++
    entry indentStep Framing.closingName (text framing.closing.toList) ++
    entry indentStep Framing.leadName (match framing.lead with
      | some lead => text lead.toList
      | none => line "null")

def fieldLines (s : Settings) (field : Field) : List Char :=
  match field with
  | .sampleRate => entry 0 field.name (numberLine s.sampleRate)
  | .fftSize => entry 0 field.name (wholeLine s.fftSize.toNat)
  | .baudRate => entry 0 field.name (wholeLine s.baudRate.toNat)
  | .framing => field.name.toList ++ ':' :: '\n' :: framingLines s.framing
  | .waterfallDepth => entry 0 field.name (wholeLine s.waterfallDepth.toNat)
  | .waterfallWidth => entry 0 field.name (match s.waterfallWidth with
    | some width => wholeLine width.toNat
    | none => line "null")
  | .newestAt => entry 0 field.name (line (edgeWord s.newestAt))
  | .intensity => entry 0 field.name (line (curveWord s.intensity))
  | .windowWidth => entry 0 field.name (numberLine s.windowWidth)
  | .windowHeight => entry 0 field.name (numberLine s.windowHeight)
  | .repaintInterval => entry 0 field.name (wholeLine s.repaintInterval.toNat)

def linesOf (s : Settings) (fields : List Field) : List Char := fields.flatMap s.fieldLines

def text (s : Settings) : String := String.ofList (s.linesOf Field.all)

end Settings

end SpectrumViewer
