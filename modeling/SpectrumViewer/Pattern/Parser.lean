import SpectrumViewer.Pattern.Bracket
import SpectrumViewer.Pattern.Group
import SpectrumViewer.Pattern.Weight

set_option autoImplicit false

/-!
Reading a pattern: parts one after another, repetitions of the part before them, branches, and
groups.
-/

namespace SpectrumViewer

namespace Pattern

/-- A part of a branch. Flags are one too, but there is nothing in them to repeat. -/
inductive Part where
  | flags
  | pattern (p : Pattern)

/-- A branch by its parts, the last one first. -/
def branch (parts : List Part) : Pattern :=
  ofList <| parts.reverse.filterMap fun
    | .flags => none
    | .pattern p => some p

def withBranch (others : Option Pattern) (parts : List Part) : Pattern :=
  match others with
  | some p => .alt p (branch parts)
  | none => branch parts

namespace Parse

/-- The digits of a count, with blanks around and between them where those do not count. -/
def countDigits : (fuel : Nat) → Parse (List Char)
  | 0 => return []
  | fuel + 1 => do
    match ← next with
    | some c =>
      if c.isDigit then
        advanceSpace
        return c :: (← countDigits fuel)
      else return []
    | none => return []

def skipBlanks : Parse Unit := modify fun s => { s with rest := s.rest.dropWhile Text.isBlank }

def count : Parse (Except Fault Nat) := do
  skipBlanks
  let start ← place
  let digits ← countDigits ((← get).rest.length + 1)
  let span ← since start
  skipBlanks
  let n := digits.foldl (fun n c => 10 * n + (c.toNat - '0'.toNat)) 0
  if digits = [] then return .error (← faultAt .countMissing span none)
  if UInt32.size ≤ n then return .error (← faultAt .decimalRange span none)
  return .ok n

/-- A question mark behind a repetition, which only asks for fewer of them. -/
def skipLazy : Parse Unit := do
  if (← next) = some '?' then advance

/-- How often something is repeated, from the opening brace on. -/
def counts : Parse (Nat × Option Nat) := do
  let start ← place
  advanceSpace
  if (← next).isNone then fail .countOpen (← since start)
  let least ← count
  let (low, high) ←
    match ← next with
    | none => fail .countOpen (← since start)
    | some ',' =>
      advanceSpace
      match ← next with
      | none => fail .countOpen (← since start)
      | some '\x7d' =>
        let low ← liftM least
        pure (low, none)
      | some _ =>
        let low ← liftM least
        let high ← liftM (← count)
        pure (low, some high)
    | some _ =>
      let low ← liftM least
      pure (low, some low)
  if (← next) ≠ some '\x7d' then fail .countOpen (← since start)
  advanceSpace
  skipLazy
  if high.any (· < low) then fail .countOrder (← since start)
  return (low, high)

/-- The part before a repetition, and the parts before that. -/
def repeatable (parts : List Part) : Parse (Pattern × List Part) := do
  match parts with
  | .pattern p :: parts => return (p, parts)
  | _ => fail .nothingRepeated (← here)

def repetition (parts : List Part) (least : Nat) (most : Option Nat) : Parse (List Part) := do
  let (p, parts) ← repeatable parts
  advance
  skipLazy
  return .pattern (.repeated p least most) :: parts

/-- The rest of a group or of the whole, behind some parts and some branches. -/
def body : (fuel : Nat) → Option Pattern → List Part → Parse Pattern
  | 0, others, parts => return withBranch others parts
  | fuel + 1, others, parts => do
    skipSpace
    match ← next with
    | none => return withBranch others parts
    | some ')' => return withBranch others parts
    | some '|' =>
      advance
      body fuel (some (withBranch others parts)) []
    | some '(' =>
      let start ← place
      match ← opening with
      | .flags flags =>
        modify fun s => { s with flags }
        body fuel others (.flags :: parts)
      | .group flags =>
        let around := (← get).flags
        modify fun s => { s with flags }
        let p ← body fuel none []
        if (← next) ≠ some ')' then fail .groupOpen ⟨start, start + 1⟩
        modify fun s => { s with flags := around }
        advance
        body fuel others (.pattern p :: parts)
    | some '[' =>
      let (set, _) ← bracket (2 * (← get).rest.length + 2)
      body fuel others (.pattern (.one set) :: parts)
    | some '?' => body fuel others (← repetition parts 0 (some 1))
    | some '*' => body fuel others (← repetition parts 0 none)
    | some '+' => body fuel others (← repetition parts 1 none)
    | some '\x7b' =>
      let (p, parts) ← repeatable parts
      let (least, most) ← counts
      body fuel others (.pattern (.repeated p least most) :: parts)
    | some c =>
      let p ← piece c
      body fuel others (.pattern p :: parts)

def whole : Parse Pattern := do
  let p ← body ((← get).rest.length + 1) none []
  if (← next).isSome then fail .groupClosed (← atNext)
  return p

end Parse

def parse (text : List Char) : Except Fault Pattern := do
  let (p, s) ← Parse.whole.run ⟨text, text, {}, [], none, false⟩
  match s.late with
  | some fault => throw fault
  | none => pure ()
  if s.needsWords then throw .noWordTable
  if weightLimit < p.weight then throw .tooLarge
  return p

end Pattern

end SpectrumViewer
