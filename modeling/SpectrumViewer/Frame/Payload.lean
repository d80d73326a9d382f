import SpectrumViewer.Number.Decimal
import SpectrumViewer.Text.Blank

set_option autoImplicit false

/-!
The text between the marks of a frame: magnitudes separated by commas. A payload is read whole or
not at all, and the number of its values is judged before their form.
-/

namespace SpectrumViewer

/-- Why a payload is no frame. -/
inductive PayloadError where
  | count (expected actual : Nat)
  | token (index : Nat) (text : String)
  deriving DecidableEq, Repr

def PayloadError.message : PayloadError → String
  | .count expected actual => s!"expected {expected} values, got {actual}"
  | .token index text => s!"token {index} ('{text}') is not a finite number"

namespace Payload

/-- The pieces between commas without blanks around them. One empty piece at the end does not
count, so a comma may follow the last value, and an empty payload holds none. -/
def tokens (payload : List Char) : List (List Char) :=
  let pieces := (Text.split ',' payload).map Text.trimmed
  if pieces.getLast? = some [] then pieces.dropLast else pieces

/-- The magnitude that a token stands for: the absolute value of a finite numeral. -/
def magnitude? (token : List Char) : Option Binary32 :=
  (Decimal.parse? token).bind fun d =>
    let value := d.toBinary32
    if value.isFinite then some value.abs else none

/-- The magnitudes of tokens, or the first token without one; `index` is that of the first. -/
def magnitudesFrom (index : Nat) : List (List Char) → Except PayloadError (List Binary32)
  | [] => .ok []
  | token :: rest =>
    match magnitude? token with
    | none => .error (.token index (String.ofList token))
    | some value => (magnitudesFrom (index + 1) rest).map (value :: ·)

/-- The magnitudes of a payload that should hold `expected` of them. -/
def parse (payload : String) (expected : Nat) : Except PayloadError (List Binary32) :=
  let found := tokens payload.toList
  if found.length = expected then magnitudesFrom 0 found
  else .error (.count expected found.length)

end Payload

end SpectrumViewer
