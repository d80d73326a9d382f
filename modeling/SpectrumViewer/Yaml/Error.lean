set_option autoImplicit false

/-!
Why a text is no YAML document of the wanted shape.
-/

namespace SpectrumViewer

namespace Yaml

inductive Error where
  /-- A character that no document may hold. -/
  | character (code : Nat)
  /-- No token starts with the next character. -/
  | token
  /-- A tab where only spaces may indent. -/
  | tab
  /-- A key without its colon. -/
  | danglingKey
  /-- A key, value or entry where none may stand. -/
  | misplaced
  /-- A quoted scalar that does not end, or ends a document. -/
  | unterminated
  /-- An escape sequence that stands for no character. -/
  | escape
  /-- A colon in a flow collection that belongs to no key. -/
  | colon
  | anchor
  | tag
  | directive
  /-- The line that opens a block scalar. -/
  | header
  /-- Tokens that form no document. -/
  | unexpected
  /-- An alias of an anchor that was not seen before. -/
  | unknownAnchor (name : String)
  | moreThanOneDocument
  /-- A value that is not of the kind its field needs. -/
  | kind (expected : String)
  | missingField (name : String)
  | duplicateField (name : String)
  deriving DecidableEq, Repr

def Error.message : Error → String
  | .character code => s!"control characters are not allowed (code point {code})"
  | .token => "found a character that cannot start any token"
  | .tab => "found a tab where an indentation space is expected"
  | .danglingKey => "could not find the colon of a key"
  | .misplaced => "a key, value or entry is not allowed in this context"
  | .unterminated => "found an unexpected end of a quoted scalar"
  | .escape => "found an unknown escape sequence"
  | .colon => "found an unexpected colon"
  | .anchor => "an anchor or alias is malformed"
  | .tag => "a tag is malformed"
  | .directive => "a directive is malformed"
  | .header => "a block scalar header is malformed"
  | .unexpected => "did not find the expected node"
  | .unknownAnchor name => s!"unknown anchor {name}"
  | .moreThanOneDocument => "more than one document"
  | .kind expected => s!"invalid value, expected {expected}"
  | .missingField name => s!"missing field {name}"
  | .duplicateField name => s!"duplicate field {name}"

end Yaml

end SpectrumViewer
