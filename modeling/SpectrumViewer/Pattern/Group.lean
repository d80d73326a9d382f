import SpectrumViewer.Pattern.Reading

set_option autoImplicit false

/-!
What stands behind an opening parenthesis: a name, flags, or nothing.
-/

namespace SpectrumViewer

namespace Pattern

def Flags.change? (flags : Flags) (value : Bool) : Char → Option Flags
  | 'i' => some { flags with anyCase := value }
  | 'm' => some { flags with multiLine := value }
  | 's' => some { flags with dotAll := value }
  | 'U' => some { flags with swapGreed := value }
  | 'u' => some { flags with unicode := value }
  | 'R' => some { flags with anyLineEnd := value }
  | 'x' => some { flags with spaced := value }
  | _ => none

/-- The characters of a group's name. Letters beyond ASCII are not told from other characters. -/
def isNameCharacter (first : Bool) (c : Char) : Bool :=
  c = '_' || c.isAlpha || (decide (0x80 ≤ c.toNat) && !Text.isBlank c) ||
    (!first && (c.isDigit || c = '.' || c = '[' || c = ']'))

/-- What an opening parenthesis turned out to be. -/
inductive Opening where
  /-- Flags for the rest of the group around it. -/
  | flags (flags : Flags)
  /-- A group with flags of its own. -/
  | group (flags : Flags)

namespace Parse

def nameRest : (fuel : Nat) → (first : Bool) → Parse (List Char)
  | 0, _ => do fail .nameEnd (← here)
  | fuel + 1, first => do
    match ← next with
    | none => fail .nameEnd (← here)
    | some c =>
      if c = '>' then return []
      if !isNameCharacter first c then fail .nameCharacter (← atNext)
      advance
      return c :: (← nameRest fuel false)

/-- A group's name, which no other group has. -/
def groupName : Parse Unit := do
  let start ← place
  let name ← nameRest ((← get).rest.length + 1) true
  let span ← since start
  advance
  if name = [] then fail .nameEmpty span
  match (← get).names.lookup name with
  | some earlier => failAgain .nameTwice span earlier
  | none => modify fun s => { s with names := (name, span) :: s.names }

/-- The signs of flags up to the colon or parenthesis behind them. -/
def flagSigns : (fuel : Nat) → List (Char × Span) → Parse (List (Char × Span))
  | 0, signs => return signs
  | fuel + 1, signs => do
    match ← next with
    | none => fail .flagEnd (← here)
    | some c =>
      if c = ':' ∨ c = ')' then
        match signs.getLast? with
        | some ('-', span) => fail .flagNegationLast span
        | _ => return signs
      else
        let span ← atNext
        if c ≠ '-' ∧ (Flags.change? {} true c).isNone then fail .flagUnknown span
        match signs.lookup c with
        | some earlier =>
          failAgain (if c = '-' then .flagNegationTwice else .flagTwice) span earlier
        | none =>
          advance
          flagSigns fuel (signs ++ [(c, span)])

/-- Flags as some signs leave them: those behind the hyphen are cleared. -/
def flagsAfter (flags : Flags) (signs : List Char) : Flags :=
  let change (value : Bool) (flags : Flags) (c : Char) : Flags := (flags.change? value c).getD flags
  let cleared := signs.dropWhile (· ≠ '-')
  cleared.foldl (change false) ((signs.takeWhile (· ≠ '-')).foldl (change true) flags)

def lookAround : Parse Bool := do
  for mark in ["?=", "?!", "?<=", "?<!"] do
    if ← advanceOver mark.toList then return true
  return false

/-- An opening parenthesis with what belongs to it. -/
def opening : Parse Opening := do
  let start ← place
  advance
  skipSpace
  if ← lookAround then fail .lookAround (← since start)
  let inner ← here
  let flags := (← get).flags
  if (← advanceOver "?P<".toList) || (← advanceOver "?<".toList) then
    groupName
    return .group flags
  if !(← advanceOver ['?']) then return .group flags
  if (← next).isNone then fail .groupOpen ⟨start, start + 1⟩
  let signs ← flagSigns ((← get).rest.length + 1) []
  let flags := flagsAfter flags (signs.map Prod.fst)
  let closed := (← next) = some ')'
  advance
  if !closed then return .group flags
  if signs = [] then fail .nothingRepeated inner
  return .flags flags

end Parse

end Pattern

end SpectrumViewer
