import SpectrumViewer.Log
import SpectrumViewer.Pattern.Match
import SpectrumViewer.Pattern.Parser
import SpectrumViewer.Text.Blank

set_option autoImplicit false

/-!
Which log records are shown, and how. A filter is a list of rules with commas between them: a level
for all targets, a target, or both with an equals sign between them. Of the rules whose target
begins a record's target, the one with the longest target decides. A pattern behind a slash has to
occur in the record.
-/

namespace SpectrumViewer

namespace Log

/-- Records of a target that begins with a text are shown up to a rank; rank zero shows none. -/
structure Rule where
  target : Option String
  rank : Nat
  deriving DecidableEq, Repr

structure Filter where
  rules : List Rule
  pattern : Option Pattern
  deriving DecidableEq, Repr

/-- What is not understood in a filter's text. -/
inductive FilterFault where
  | rule (text : String)
  | slashes (text : String)
  | pattern (fault : Pattern.Fault)
  deriving DecidableEq, Repr

def FilterFault.message : FilterFault → String
  | .rule text => s!"invalid logging spec '{text}'"
  | .slashes text => s!"invalid logging spec '{text}' (too many '/'s)"
  | .pattern fault => "invalid regex filter - " ++ fault.message

/-- A level that shows everything. -/
def fullRank : Nat := 5

/-- The rank of a level's name, in letters of either case. -/
def rank? (name : List Char) : Option Nat :=
  let upper := name.map Char.toUpper
  if upper = ['O', 'F', 'F'] then some 0
  else ([Level.error, .warn, .info, .debug, .trace].find? (·.name.toList = upper)).map Level.rank

/-- The rule that a text without blanks around it stands for. -/
def Rule.parse (text : List Char) : Except FilterFault Rule :=
  match Text.split '=' text with
  | [word] =>
    match rank? word with
    | some rank => .ok ⟨none, rank⟩
    | none => .ok ⟨some (String.ofList word), fullRank⟩
  | [target, level] =>
    let level := Text.trimmed level
    if level = [] then .ok ⟨some (String.ofList target), fullRank⟩
    else match rank? level with
      | some rank => .ok ⟨some (String.ofList target), rank⟩
      | none => .error (.rule (String.ofList level))
  | _ => .error (.rule (String.ofList text))

/-- Adds a rule in the place of one with the same target. -/
def addRule (rules : List Rule) (rule : Rule) : List Rule :=
  if rules.any (·.target = rule.target) then
    rules.map fun r => if r.target = rule.target then rule else r
  else rules ++ [rule]

namespace Filter

def parseRules (text : List Char) : List FilterFault × List Rule :=
  let pieces := ((Text.split ',' text).map Text.trimmed).filter (· ≠ [])
  pieces.foldl (fun (faults, rules) piece =>
    match Rule.parse piece with
    | .ok rule => (faults, addRule rules rule)
    | .error fault => (faults ++ [fault], rules)) ([], [])

/-- Without a rule, only errors are shown. -/
def withDefault (rules : List Rule) : List Rule :=
  if rules = [] then [⟨none, Level.error.rank⟩] else rules

/-- The filter of a text, and what was not understood. -/
def parse (text : String) : List FilterFault × Filter :=
  match Text.split '/' text.toList with
  | [rules] =>
    let (faults, rules) := parseRules rules
    (faults, ⟨withDefault rules, none⟩)
  | [rules, pattern] =>
    let (faults, rules) := parseRules rules
    match Pattern.parse pattern with
    | .ok pattern => (faults, ⟨withDefault rules, some pattern⟩)
    | .error fault => (faults ++ [.pattern fault], ⟨withDefault rules, none⟩)
  | _ => ([.slashes text], ⟨withDefault [], none⟩)

def weight (rule : Rule) : Nat := (rule.target.map String.utf8ByteSize).getD 0

def applies (target : String) (rule : Rule) : Bool :=
  match rule.target with
  | some start => start.toList.isPrefixOf target.toList
  | none => true

/-- The rule that decides about a target: the longest, of equals the last. -/
def decisive? (rules : List Rule) (target : String) : Option Rule :=
  (rules.filter (applies target)).foldl (fun best rule =>
    match best with
    | some other => if weight rule < weight other then some other else some rule
    | none => some rule) none

def shows (filter : Filter) (record : Record) : Bool :=
  match decisive? filter.rules record.target.name with
  | some rule =>
    decide (record.level.rank ≤ rule.rank) && filter.pattern.all (·.occursIn record.text)
  | none => false

/-- The rules that hold where nothing else is said. -/
def standardText : String :=
  "fft_waterfall=info,fft_waterfall::frame_decoder=info,fft_waterfall::serial_stream=info"

end Filter

/-- A level's name in five columns. -/
def Level.column (level : Level) : String :=
  level.name ++ String.ofList (List.replicate (5 - level.name.length) ' ')

/-- A text whose further lines are indented. -/
def indented (text : String) : String :=
  String.ofList (text.toList.flatMap fun c =>
    if c = '\n' then ['\n', ' ', ' ', ' ', ' '] else [c])

def Record.line (record : Record) : String :=
  "[" ++ record.level.column ++ " " ++ record.target.name ++ "] " ++ indented record.text ++ "\n"

end Log

end SpectrumViewer
