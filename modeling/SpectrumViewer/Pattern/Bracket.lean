import SpectrumViewer.Pattern.Escape

set_option autoImplicit false

/-!
Sets of characters in brackets. Parts that stand side by side are united; the signs for what is
common to two sets, in one of them only, or in exactly one of them bind less tightly and group to
the left.
-/

namespace SpectrumViewer

namespace Pattern

/-- The parts of a bracket since the last sign, and their span. -/
structure Items where
  set : CharSet
  span : Span
  isEmpty : Bool

def Items.none (span : Span) : Items := ⟨.empty, span, true⟩

def Items.add (items : Items) (set : CharSet) (span : Span) : Items :=
  ⟨.union items.set set, ⟨if items.isEmpty then span.start else items.span.start, span.stop⟩, false⟩

/-- What stands before a sign, and how it is joined with what follows. -/
structure Operand where
  set : CharSet
  combine : CharSet → CharSet → CharSet

/-- The classes that are named in brackets between colons. -/
def namedSet? (name : String) : Option CharSet :=
  [("alnum", .ranges [('0', '9'), ('A', 'Z'), ('a', 'z')]),
   ("alpha", .ranges [('A', 'Z'), ('a', 'z')]),
   ("ascii", .ranges [('\x00', '\x7f')]),
   ("blank", .ranges [('\t', '\t'), (' ', ' ')]),
   ("cntrl", .ranges [('\x00', '\x1f'), ('\x7f', '\x7f')]),
   ("digit", .digit),
   ("graph", .ranges [('!', '~')]),
   ("lower", .ranges [('a', 'z')]),
   ("print", .ranges [(' ', '~')]),
   ("punct", .ranges [('!', '/'), (':', '@'), ('[', '\x60'), ('\x7b', '~')]),
   ("space", .space),
   ("upper", .ranges [('A', 'Z')]),
   ("word", .word),
   ("xdigit", .ranges [('0', '9'), ('A', 'F'), ('a', 'f')])].lookup name

/-- A named class at the start of a text: its characters, whether it stands for the others, and
what follows. -/
def named? (cs : List Char) : Option (CharSet × Bool × List Char) :=
  match cs with
  | '[' :: ':' :: cs =>
    let (negated, cs) := if cs.head? = some '^' then (true, cs.drop 1) else (false, cs)
    match namedSet? (String.ofList (cs.takeWhile (· ≠ ':'))), cs.dropWhile (· ≠ ':') with
    | some set, ':' :: ']' :: rest => some (set, negated, rest)
    | _, _ => none
  | _ => none

/-- The sign that two equal characters are. -/
def combine? : Char → Option (CharSet → CharSet → CharSet)
  | '&' => some .inter
  | '-' => some .diff
  | '~' => some .symmDiff
  | _ => none

namespace Parse

/-- Letters of both cases. Where a pattern is about all characters they would need a table. -/
def foldCase (s : CharSet) (span : Span) : Parse CharSet := do
  let flags := (← get).flags
  if !flags.anyCase then return s
  else if flags.unicode then
    failLate .noCases span
    return s
  else return .anyCase s

/-- The characters of a class, or those outside of it. -/
def closed (s : CharSet) (negated : Bool) (span : Span) : Parse CharSet := do
  let s ← foldCase s span
  if !negated then return s
  if !(← get).flags.unicode then failLate .noText span
  return .compl s

def bracketLiteral (c : Char) (octet : Bool) (span : Span) : Parse Unit := do
  if !(← get).flags.unicode && decide (0x80 ≤ c.toNat) then
    failLate (if octet then .noText else .noUnicode) span

def bracketPiece (c : Char) : Parse (Piece × Span) := do
  if c = '\\' then escape
  else
    let span ← atNext
    advance
    return (.literal c false, span)

/-- What a least part stands for in brackets. -/
def bracketMeaning (piece : Piece) (span : Span) : Parse CharSet := do
  match piece with
  | .literal c octet =>
    bracketLiteral c octet span
    return .single c
  | .known set negated => knownSet set negated span
  | .property => propertySet span
  | _ => fail .classEscape span

/-- An end of a range, which has to be a character. -/
def rangeEnd (piece : Piece) (span : Span) : Parse (Char × Bool) := do
  match piece with
  | .literal c octet => return (c, octet)
  | _ => fail .classRangeEnd span

/-- A least part or a range, whose first character is known. The bracket was opened by `opening`. -/
def bracketItem (opening : Span) (c : Char) : Parse (CharSet × Span) := do
  let (first, span) ← bracketPiece c
  skipSpace
  if (← next).isNone then fail .classOpen opening
  let behind ← afterNext
  if (← next) ≠ some '-' ∨ behind = some ']' ∨ behind = some '-' then
    return (← bracketMeaning first span, span)
  advanceSpace
  match ← next with
  | none => fail .classOpen opening
  | some c =>
    let (last, lastSpan) ← bracketPiece c
    let (low, lowOctet) ← rangeEnd first span
    let (high, highOctet) ← rangeEnd last lastSpan
    let whole : Span := ⟨span.start, lastSpan.stop⟩
    if high < low then fail .classRangeOrder whole
    bracketLiteral low lowOctet span
    bracketLiteral high highOctet lastSpan
    return (.ranges [(low, high)], whole)

/-- Hyphens at the start of a bracket that opens at `start`. -/
def firstHyphens (start : Nat) : (fuel : Nat) → Items → Parse Items
  | 0, items => return items
  | fuel + 1, items => do
    if (← next) ≠ some '-' then return items
    let items := items.add (.single '-') (← atNext)
    advanceSpace
    if (← next).isNone then fail .classOpen ⟨start, start⟩
    firstHyphens start fuel items

/-- The start of a bracket: whether it stands for the other characters, and what stands there for
itself only because it comes first. -/
def bracketOpening : Parse (Bool × Items) := do
  let start ← place
  advanceSpace
  if (← next).isNone then fail .classOpen (← since start)
  let negated := (← next) = some '^'
  if negated then
    advanceSpace
    if (← next).isNone then fail .classOpen (← since start)
  let items ← firstHyphens start ((← get).rest.length + 1) (.none (← here))
  if items.isEmpty ∧ (← next) = some ']' then
    let items := items.add (.single ']') (← atNext)
    advanceSpace
    if (← next).isNone then fail .classOpen (← since start)
    return (negated, items)
  return (negated, items)

/-- The parts so far, joined with what stands before the last sign. -/
def joined (left : Option Operand) (items : Items) : Parse CharSet := do
  match left with
  | none => return items.set
  | some left =>
    let right ← foldCase items.set items.span
    return left.combine (← foldCase left.set items.span) right

mutual

def bracket : (fuel : Nat) → Parse (CharSet × Span)
  | 0 => do fail .classOpen (← here)
  | fuel + 1 => do
    let start ← place
    let (negated, items) ← bracketOpening
    let set ← bracketRest fuel (← since start) none items
    let span ← since start
    return (← closed set negated span, span)

/-- The rest of a bracket, behind some parts. -/
def bracketRest : (fuel : Nat) → (opening : Span) → Option Operand → Items → Parse CharSet
  | 0, opening, _, _ => fail .classOpen opening
  | fuel + 1, opening, left, items => do
    skipSpace
    match ← next with
    | none => fail .classOpen opening
    | some ']' =>
      advance
      joined left items
    | some '[' =>
      match named? (← get).rest with
      | some (set, negated, rest) =>
        let start ← place
        modify fun s => { s with rest }
        let span ← since start
        bracketRest fuel opening left (items.add (← closed set negated span) span)
      | none =>
        let (set, span) ← bracket fuel
        bracketRest fuel opening left (items.add set span)
    | some c =>
      match combine? c, decide ((← get).rest[1]? = some c) with
      | some combine, true =>
        let left : Operand := ⟨← joined left items, combine⟩
        advance
        advance
        bracketRest fuel opening (some left) (.none (← here))
      | _, _ =>
        let (set, span) ← bracketItem opening c
        bracketRest fuel opening left (items.add set span)

end

end Parse

end Pattern

end SpectrumViewer
