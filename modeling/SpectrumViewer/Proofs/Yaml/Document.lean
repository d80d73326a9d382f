import SpectrumViewer.Proofs.Yaml.Node.Parser
import SpectrumViewer.Proofs.Yaml.Scalar.Printable
import SpectrumViewer.Proofs.Yaml.Token.Mapping
import SpectrumViewer.Yaml.Node.Value

set_option autoImplicit false

/-!
Documents of written entries. The value of an entry is a word that needs no quotes, any text, or a
mapping of further entries; a document of such entries is read as the mapping of their nodes
(`ofText?_entries`).
-/

namespace SpectrumViewer

namespace Yaml

namespace Binding

/-- An entry at a depth that is read as the node it stands for. -/
structure IsWritten (depth : Nat) (e : Binding) : Prop where
  prints : e.Prints depth
  denotes : Parse.Denotes e.tokens e.node
  printable : ∀ c ∈ e.lines, Scalar.isPrintable c = true

def plain (name : String) (cs : List Char) : Binding where
  name := name
  lines := ' ' :: (cs ++ ['\n'])
  tokens := [.scalar .plain (String.ofList cs)]
  node := .scalar none .plain (String.ofList cs)

/-- An entry at a depth whose value is a text. -/
def ofText (depth : Nat) (name : String) (cs : List Char) : Binding where
  name := name
  lines := ' ' :: Scalar.written (depth + 2) cs
  tokens := [.scalar (Scalar.styleOf cs) (String.ofList cs)]
  node := .scalar none (Scalar.styleOf cs) (String.ofList cs)

def mapping (depth : Nat) (name : String) (entries : List Binding) : Binding where
  name := name
  lines := '\n' :: entries.flatMap (text depth)
  tokens := .blockMappingStart :: entries.flatMap allTokens ++ [.blockEnd]
  node := .mapping none (entries.map pair)

variable {depth : Nat} {name : String}

theorem isWritten_plain (isName : Scanner.IsName name.toList) {cs : List Char}
    (holds : Plain.Holds cs) (printable : ∀ c ∈ cs, Scalar.isPrintable c = true) :
    (plain name cs).IsWritten depth where
  prints := ⟨isName, Scanner.prints_plain depth holds⟩
  denotes := Parse.denotes_scalar .plain (String.ofList cs)
  printable := List.forall_mem_cons.mpr
    ⟨rfl, List.forall_mem_append.mpr ⟨printable, List.forall_mem_singleton.mpr rfl⟩⟩

theorem isWritten_ofText (isName : Scanner.IsName name.toList) (cs : List Char) :
    (ofText depth name cs).IsWritten depth where
  prints := ⟨isName, Scanner.prints_written depth cs⟩
  denotes := Parse.denotes_scalar (Scalar.styleOf cs) (String.ofList cs)
  printable := List.forall_mem_cons.mpr ⟨rfl, Scalar.printable_written (depth + 2) cs⟩

theorem IsWritten.printable_text {e : Binding} (written : e.IsWritten depth) :
    ∀ c ∈ e.text depth, Scalar.isPrintable c = true := by
  have name : ∀ c ∈ e.name.toList, Scalar.isPrintable c = true := fun c among =>
    Scalar.isPrintable_of_isWord (written.prints.name.word c among)
  refine List.forall_mem_append.mpr ⟨Scalar.printable_indentation depth, ?_⟩
  exact List.forall_mem_append.mpr
    ⟨name, List.forall_mem_cons.mpr ⟨rfl, written.printable⟩⟩

theorem printable_entries {entries : List Binding} (written : ∀ e ∈ entries, e.IsWritten depth) :
    ∀ c ∈ entries.flatMap (text depth), Scalar.isPrintable c = true := by
  intro c among
  obtain ⟨e, here, inside⟩ := List.mem_flatMap.mp among
  exact (written e here).printable_text c inside

theorem isWritten_mapping (isName : Scanner.IsName name.toList) {entries : List Binding}
    (nonempty : entries ≠ []) (written : ∀ e ∈ entries, e.IsWritten (depth + 2)) :
    (mapping (depth + 2) name entries).IsWritten depth where
  prints := ⟨isName, Scanner.prints_mapping nonempty fun e among => (written e among).prints⟩
  denotes := Parse.denotes_mapping fun e among => (written e among).denotes
  printable := List.forall_mem_cons.mpr ⟨rfl, printable_entries written⟩

end Binding

/-- A document of written entries is the mapping of their nodes. -/
theorem Document.ofText?_entries {entries : List Binding} (nonempty : entries ≠ [])
    (written : ∀ e ∈ entries, e.IsWritten 0) :
    Document.ofText? (entries.flatMap (Binding.text 0)) =
      .ok ⟨.mapping none (entries.map Binding.pair), []⟩ := by
  have scanned := Scanner.scan_mapping nonempty (fun e among => (written e among).prints)
    (Binding.printable_entries written)
  rw [Document.ofText?, scanned]
  exact Document.ofTokens?_mapping fun e among => (written e among).denotes

theorem Document.fields?_entries (d : Document) (entries : List Binding) :
    d.fields? (.mapping none (entries.map Binding.pair)) =
      .ok (entries.map fun e => (e.name, e.node)) := by
  have named : (entries.map Binding.pair).mapM (fun p => return (← d.text? p.1, p.2)) =
      (.ok (entries.map fun e => (e.name, e.node)) : Except Error _) := by
    induction entries with
    | nil => rfl
    | cons e entries ih =>
      rw [List.map_cons, List.mapM_cons, ih]
      rfl
  exact named

end Yaml

end SpectrumViewer
