import SpectrumViewer.Settings.Field
import SpectrumViewer.Yaml.Document
import SpectrumViewer.Yaml.Node.Value

set_option autoImplicit false

/-!
Settings from a document. A field that is missing keeps its standard value.
-/

namespace SpectrumViewer

namespace Framing

open Yaml in
/-- A framing needs both of its marks. -/
def ofNode? (d : Document) (n : Node) : Except Error Framing := do
  let fields ← d.fields? n
  Document.checkDistinct [openingName, closingName, leadName] fields
  let opening ← d.text? (← Document.field? fields openingName)
  let closing ← d.text? (← Document.field? fields closingName)
  let lead ← match fields.lookup leadName with
    | some n => d.optional? d.text? n
    | none => pure none
  return ⟨opening, closing, lead⟩

end Framing

namespace Settings

open Yaml

/-- A 64-bit word. -/
def word? (d : Document) (n : Node) : Except Error UInt64 :=
  UInt64.ofNat <$> d.whole? UInt64.size n

def caseOf? {α : Type} (d : Document) (find : String → Option α) (n : Node) : Except Error α := do
  match find (← d.case? n) with
  | some a => return a
  | none => throw (.kind "a known case")

/-- Settings with a field set to the value of a node. -/
def set? (d : Document) (s : Settings) (n : Node) : Field → Except Error Settings
  | .sampleRate => return { s with sampleRate := ← d.number? n }
  | .fftSize => return { s with fftSize := ← word? d n }
  | .baudRate => return { s with baudRate := UInt32.ofNat (← d.whole? UInt32.size n) }
  | .framing => return { s with framing := ← Framing.ofNode? d n }
  | .waterfallDepth => return { s with waterfallDepth := ← word? d n }
  | .waterfallWidth => return { s with waterfallWidth := ← d.optional? (word? d) n }
  | .newestAt => return { s with newestAt := ← caseOf? d edgeOf? n }
  | .intensity => return { s with intensity := ← caseOf? d curveOf? n }
  | .windowWidth => return { s with windowWidth := ← d.number? n }
  | .windowHeight => return { s with windowHeight := ← d.number? n }
  | .repaintInterval => return { s with repaintInterval := ← word? d n }

/-- Settings with each field of a document set. Names that are no field's are passed over. -/
def ofDocument? (d : Document) : Except Error Settings := do
  let fields ← d.fields? d.root
  Document.checkDistinct (Field.all.map Field.name) fields
  fields.foldlM (fun s (name, n) =>
    match Field.named? name with
    | some field => set? d s n field
    | none => pure s) standard

def ofText? (text : List Char) : Except Error Settings := do ofDocument? (← Document.ofText? text)

end Settings

end SpectrumViewer
