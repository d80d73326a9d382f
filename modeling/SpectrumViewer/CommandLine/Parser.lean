import SpectrumViewer.CommandLine.Arguments

set_option autoImplicit false

/-!
Reading a command line from left to right. A value stands behind an equals sign or as the next
argument, unless that one begins with a hyphen and goes on. An argument is taken in only when the
next one comes to be taken in or the line ends, so an unknown switch is found before a malformed
value in front of it.
-/

namespace SpectrumViewer

namespace CommandLine

/-- An argument by its form. -/
inductive Word where
  /-- Two hyphens: what follows are no switches. -/
  | stop
  | long (name : String) (value : Option String)
  | short (letter : Char)
  | plain (text : String)
  deriving DecidableEq, Repr

/-- The form of an argument. Letters behind the first one do not matter, since no switch with a
letter leaves anything to read. -/
def Word.ofString (text : String) : Word :=
  match text.toList with
  | ['-', '-'] => .stop
  | '-' :: '-' :: cs =>
    let name := String.ofList (cs.takeWhile (· ≠ '='))
    match cs.dropWhile (· ≠ '=') with
    | _ :: value => .long name (some (String.ofList value))
    | [] => .long name none
  | '-' :: c :: _ => .short c
  | _ => .plain text

/-- What was taken in so far, and a switch that takes a value and was not taken in yet, with its
value if that was seen. -/
structure Progress where
  arguments : Arguments
  pending : Option (Switch × Option String)
  deriving DecidableEq, Repr

namespace Progress

def start : Progress := ⟨.empty, none⟩

def settle (p : Progress) : Except Reply Arguments :=
  match p.pending with
  | none => .ok p.arguments
  | some (_, none) => .error (.refused .missingValue)
  | some (s, some value) => p.arguments.take? s value

/-- A switch, with a value if one is attached. -/
def switch (p : Progress) (s : Switch) (value : Option String) : Except Reply Progress :=
  match s.takesValue, value with
  | true, some value => return ⟨← (← p.settle).take? s value, none⟩
  | true, none => return ⟨← p.settle, some (s, none)⟩
  | false, some _ => .error (.refused .needlessValue)
  | false, none => return ⟨← (← p.settle).take? s "", none⟩

def step (p : Progress) : Word → Except Reply Progress
  | .stop => .ok p
  | .long name value =>
    match Switch.named? name with
    | some s => p.switch s value
    | none => .error (.refused .unknownSwitch)
  | .short letter =>
    match Switch.lettered? letter with
    | some s => p.switch s none
    | none => .error (.refused .unknownSwitch)
  | .plain text =>
    match p.pending with
    | some (s, none) => .ok ⟨p.arguments, some (s, some text)⟩
    | _ => .error (.refused .unknownSwitch)

def finish (p : Progress) : Except Reply Arguments := do
  let a ← p.settle
  if a.sourceCount ≤ 1 then return a else throw (.refused .conflict)

def run (p : Progress) : List String → Except Reply Arguments
  | [] => p.finish
  | arg :: rest =>
    match Word.ofString arg with
    | .stop => if rest = [] then p.finish else .error (.refused .unknownSwitch)
    | word => do run (← p.step word) rest

end Progress

def parse (argv : List String) : Except Reply Arguments := Progress.start.run argv

end CommandLine

end SpectrumViewer
