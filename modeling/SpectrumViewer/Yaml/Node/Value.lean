import SpectrumViewer.Yaml.Error
import SpectrumViewer.Yaml.Literal
import SpectrumViewer.Yaml.Node.Basic

set_option autoImplicit false

/-!
What a node of a document stands for, as a value of a wanted type. Only plain scalars are numbers
or nothing, unless a tag says what they are; any scalar is a text. Aliases are followed wherever a
value is wanted.
-/

namespace SpectrumViewer

namespace Yaml

/-- The name of a local tag: what follows its exclamation mark, or that mark alone. -/
def localName? : Tag → Option String
  | [] => none
  | mark :: name =>
    if mark = 0x21 then
      (Utf8.strict? (if name = [] then [mark] else name)).map String.ofList
    else none

namespace Document

variable (d : Document)

def text? (n : Node) : Except Error String :=
  match d.resolve n with
  | .scalar _ _ text => .ok text
  | _ => .error (.kind "a text")

/-- A scalar that is plain, or a literal block with a tag that calls it a `kind`. -/
def literalOf? (kind : String) (n : Node) : Option (List Char) :=
  match d.resolve n with
  | .scalar _ .plain text => some text.toList
  | .scalar tag .literal text => if tag = some (coreTag kind) then some text.toList else none
  | _ => none

def whole? (limit : Nat) (n : Node) : Except Error Nat :=
  match (d.literalOf? "int" n).bind Literal.unsigned? with
  | some k => if k < limit then .ok k else .error (.kind "a smaller number")
  | none => .error (.kind "a whole number")

def number? (n : Node) : Except Error Binary32 :=
  match (d.literalOf? "float" n).bind Literal.number? with
  | some x => .ok x
  | none => .error (.kind "a number")

/-- Whether a node is there or stands for nothing. A plain scalar that is tagged as nothing has to
say so. -/
def isPresent? (n : Node) : Except Error Bool :=
  match d.resolve n with
  | .void => .ok false
  | .scalar tag .plain text =>
    let null := Literal.isNull text.toList
    match tag with
    | none => .ok !null
    | some tag =>
      if tag ≠ coreTag "null" then .ok true
      else if null ∧ text ≠ "" then .ok false
      else .error (.kind "nothing")
  | _ => .ok true

def optional? {α : Type} (read : Node → Except Error α) (n : Node) : Except Error (Option α) := do
  if ← d.isPresent? n then some <$> read n else pure none

/-- The name of one of several cases: a scalar, or a local tag on nothing. -/
def case? (n : Node) : Except Error String :=
  match d.resolve n with
  | .scalar tag style text =>
    match tag.bind localName? with
    | some name =>
      if style = .plain ∧ Literal.isNull text.toList then .ok name
      else .error (.kind "a case without a value")
    | none => .ok text
  | _ => .error (.kind "the name of a case")

/-- The entries of a mapping with their keys, which are texts. Nothing has no entries. -/
def fields? (n : Node) : Except Error (List (String × Node)) :=
  match d.resolve n with
  | .mapping _ entries => entries.mapM fun (k, v) => return (← d.text? k, v)
  | .void => .ok []
  | .scalar _ .plain "" => .ok []
  | _ => .error (.kind "a mapping")

/-- The value of a field in a list of fields. -/
def field? (fields : List (String × Node)) (name : String) : Except Error Node :=
  match fields.lookup name with
  | some n => .ok n
  | none => .error (.missingField name)

/-- No field with one of these names stands twice. -/
def checkDistinct (names : List String) (fields : List (String × Node)) : Except Error Unit :=
  match names.find? fun name => decide (1 < (fields.map Prod.fst).count name) with
  | some name => .error (.duplicateField name)
  | none => .ok ()

end Document

end Yaml

end SpectrumViewer
