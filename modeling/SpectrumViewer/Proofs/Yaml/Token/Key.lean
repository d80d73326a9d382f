import SpectrumViewer.Proofs.Yaml.Line
import SpectrumViewer.Proofs.Yaml.Scalar.Plain

set_option autoImplicit false

/-!
The key of an entry: a name in front of a colon, which opens the block of its mapping if it is the
first one there (`run_name`).
-/

namespace SpectrumViewer

namespace Yaml

namespace Scanner

/-- A scanner goes on from behind the next blanks and breaks. -/
theorem run_congr {s s' : Scanner} (skip : s.skip = s'.skip) (fuel : Nat) :
    run fuel s = run fuel s' := by
  cases fuel with
  | zero => rfl
  | succ fuel => rw [run, run, skip]

/-- A scanner gets from one state to another, with at most one token for each character. -/
def Scans (s s' : Scanner) : Prop :=
  ∃ count, count + s'.cursor.rest.length ≤ s.cursor.rest.length ∧
    ∀ fuel, run (fuel + count) s = run fuel s'

theorem Scans.trans {s t u : Scanner} (first : Scans s t) (second : Scans t u) : Scans s u := by
  obtain ⟨m, bound, read⟩ := first
  obtain ⟨n, bound', read'⟩ := second
  refine ⟨n + m, by omega, fun fuel => ?_⟩
  rw [← Nat.add_assoc, read, read']

theorem scans_of_run {s s' : Scanner} (length : s'.cursor.rest.length ≤ s.cursor.rest.length)
    (run_eq : ∀ fuel, run fuel s = run fuel s') : Scans s s' :=
  ⟨0, by omega, run_eq⟩

theorem closeBlocks_of_le {column indent : Int} (inside : indent ≤ column) (tokens : List Token)
    (outer : List Int) : closeBlocks column tokens indent outer = (tokens, indent, outer) := by
  cases outer with
  | nil => rfl
  | cons next outer => rw [closeBlocks, if_neg (by omega)]

theorem unindent_of_le {s : Scanner} {column : Int} (inside : s.indent ≤ column) :
    s.unindent column = s := by
  unfold unindent
  split
  · rfl
  · rw [closeBlocks_of_le inside]

theorem run_succ {s t s' : Scanner} {c : Char} {rest : List Char}
    (fresh : s.skip.dropStale = .ok t) (inside : t.indent ≤ t.column)
    (next : t.cursor.rest = c :: rest) (token : t.token c rest = .ok s') (fuel : Nat) :
    run (fuel + 1) s = run fuel s' := by
  rw [run, fresh]
  simp only [bind, Except.bind]
  rw [unindent_of_le inside, next]
  simp only [token]

/-- The blocks around a place, and the tokens before it, the last one first. -/
structure Blocks where
  tokens : List Token
  indent : Int
  outer : List Int

namespace Blocks

variable (b : Blocks)

/-- The scanner at a place where no node waits for its colon. -/
def scanner (keyAllowed : Bool) (c : Cursor) : Scanner :=
  ⟨c, b.tokens, b.indent, b.outer, none, [], keyAllowed⟩

def emit (tokens : List Token) : Blocks := { b with tokens := tokens.reverse ++ b.tokens }

/-- The blocks at an entry of a mapping, which the first entry opens. -/
def enter (depth : Nat) : Blocks :=
  if (depth : Int) ≤ b.indent then b
  else ⟨.blockMappingStart :: b.tokens, depth, b.indent :: b.outer⟩

@[simp] theorem emit_indent (tokens : List Token) : (b.emit tokens).indent = b.indent := rfl

@[simp] theorem emit_emit (first second : List Token) :
    (b.emit first).emit second = b.emit (first ++ second) := by
  simp [emit]

theorem enter_indent {depth : Nat} (within : b.indent ≤ depth) :
    (b.enter depth).indent = depth := by
  unfold enter
  split
  · omega
  · rfl

theorem enter_of_eq {depth : Nat} (same : b.indent = depth) : b.enter depth = b :=
  if_pos (Int.le_of_eq same.symm)

@[simp] theorem dropStale_scanner (keyAllowed : Bool) (c : Cursor) :
    (b.scanner keyAllowed c).dropStale = .ok (b.scanner keyAllowed c) := rfl

theorem skip_scanner (keyAllowed : Bool) (p : Position) (rest : List Char) :
    (b.scanner keyAllowed ⟨rest, p⟩).skip =
      b.scanner (skipBetween false false keyAllowed p rest).2
        (skipBetween false false keyAllowed p rest).1 := rfl

end Blocks

/-- A name that can stand in front of a colon without quotes, and is no longer than it may be. -/
structure IsName (name : List Char) : Prop where
  starts : ∃ c rest, name = c :: rest ∧ c.isAlpha = true
  word : ∀ c ∈ name, isWord c = true
  short : name.length ≤ 256

theorem IsName.length_pos {name : List Char} (isName : IsName name) : 0 < name.length := by
  obtain ⟨c, rest, rfl, -⟩ := isName.starts
  exact Nat.succ_pos rest.length

theorem IsName.oneLine {name : List Char} (isName : IsName name) :
    ∀ c ∈ name, isBreak c = false := fun c among =>
  (Plain.isSpace_of_not (isSpaceOrBreak_of_isWord (isName.word c among))).2

theorem readOn_name {name : List Char} (word : ∀ c ∈ name, isWord c = true) {more : List Char}
    (apart : endsWord more = true) (indent : Int) (text : List Char) (p : Position) :
    Plain.readOn ⟨false, indent⟩ text .none p (name ++ ':' :: more) =
      .ok ⟨text.reverse ++ name, ⟨':' :: more, p.over name⟩, false⟩ := by
  induction name generalizing text p with
  | nil =>
    have ends : Plain.endsBefore false ':' more = true := by simp [Plain.endsBefore, apart]
    rw [List.nil_append, Plain.readOn, if_neg (by decide), if_neg (by decide), if_neg (by simp),
      if_neg (by simp), if_pos ends, List.append_nil]
    rfl
  | cons c name ih =>
    obtain ⟨here, later⟩ := List.forall_mem_cons.mp word
    obtain ⟨noSpace, noBreak⟩ := Plain.isSpace_of_not (isSpaceOrBreak_of_isWord here)
    have goesOn : Plain.endsBefore false c (name ++ ':' :: more) = false := by
      simp [Plain.endsBefore, ne_of_isWord here ':' rfl]
    rw [List.cons_append, Plain.readOn, noSpace, noBreak, goesOn]
    simp only [Bool.false_eq_true, if_false, ne_eq, not_true_eq_false, false_and]
    rw [ih later]
    simp [Gap.text, Position.over_cons]

theorem startsPlain_of_lead {c : Char} {rest : List Char} (solid : isSpaceOrBreak c = false)
    (lead : ∀ d ∈ Scalar.leadIndicators, c ≠ d)
    (mark : c = '-' ∨ c = '?' ∨ c = ':' → endsWord rest = false) :
    startsPlain false c rest = true := by
  by_cases marked : c = '-' ∨ c = '?' ∨ c = ':'
  · have apart := mark marked
    cases rest with
    | nil => cases apart
    | cons d rest =>
      have visible : isSpace d = false := (Plain.isSpace_of_not apart).1
      rcases marked with rfl | rfl | rfl <;> simp [startsPlain, visible, apart]
  · have notIndicator : indicators.contains c = false := by
      simp_all [indicators, Scalar.leadIndicators]
    rw [startsPlain, solid, notIndicator]
    rfl

/-- A plain scalar is read where no other token starts. -/
theorem token_plain {s : Scanner} {c : Char} {rest : List Char} (block : s.inFlow = false)
    (solid : isSpaceOrBreak c = false) (lead : Scalar.leadIndicators.contains c = false)
    (mark : c = '-' ∨ c = '?' ∨ c = ':' → endsWord rest = false)
    (noLineMark : s.column = 0 → atDocumentMark (c :: rest) = false) :
    s.token c rest = s.plainScalar := by
  have others : ∀ d ∈ Scalar.leadIndicators, c ≠ d := by
    rintro d among rfl
    simp [among] at lead
  have plain := startsPlain_of_lead solid others mark
  have noMark (d : Char) (among : d = '-' ∨ d = '?' ∨ d = ':') :
      ¬(c = d ∧ endsWord rest = true) := by
    rintro ⟨rfl, ends⟩
    simp [mark among] at ends
  simp only [Scalar.leadIndicators, List.forall_mem_cons] at others
  have noLineMark' : ¬(s.column = 0 ∧ atDocumentMark (c :: rest) = true) := by
    rintro ⟨start, marks⟩
    simp [noLineMark start] at marks
  rw [token]
  simp [block, others, plain, noLineMark', noMark]

theorem plainScalar_eq {s t : Scanner} {read : Plain.Read} (marked : s.markKey = .ok t)
    (reads : Plain.read ⟨t.inFlow, t.indent + 1⟩ t.cursor = .ok read) :
    s.plainScalar =
      .ok ({ t with keyAllowed := read.newLine, cursor := read.cursor }.emit
        (.scalar .plain (String.ofList read.text))) := by
  rw [plainScalar, marked]
  simp only [bind, Except.bind]
  rw [reads]
  rfl

/-- The scanner behind a node that may be a key. -/
def Blocks.marked (b : Blocks) (mark : KeyMark) (name : List Char) (c : Cursor) : Scanner :=
  ⟨c, .scalar .plain (String.ofList name) :: b.tokens, b.indent, b.outer, some mark, [], false⟩

theorem plainScalar_name (b : Blocks) {name : List Char} (isName : IsName name) {more : List Char}
    (apart : endsWord more = true) (p : Position) :
    (b.scanner true ⟨name ++ ':' :: more, p⟩).plainScalar =
      .ok (b.marked ⟨b.tokens.length, p, decide (b.indent = p.column)⟩ name
        ⟨':' :: more, p.over name⟩) := by
  have marked : (b.scanner true ⟨name ++ ':' :: more, p⟩).markKey =
      .ok { b.scanner true ⟨name ++ ':' :: more, p⟩ with
        level := some ⟨b.tokens.length, p, decide (b.indent = p.column)⟩ } := rfl
  exact plainScalar_eq marked (readOn_name isName.word apart (b.indent + 1) [] p)

theorem insertAt_length {s : Scanner} (later before : List Token)
    (tokens : s.tokens = later ++ before) (t : Token) :
    s.insertAt before.length t = { s with tokens := later ++ t :: before } := by
  simp [insertAt, tokens]

theorem value_name (b : Blocks) (name : List Char) (p q : Position) (required : Bool)
    (more : List Char) :
    (b.marked ⟨b.tokens.length, p, required⟩ name ⟨':' :: more, q⟩).value =
      .ok (((b.enter p.column).emit [.key, .scalar .plain (String.ofList name), .value]).scanner
        false ⟨more, q.next ':'⟩) := by
  let scalar : Token := .scalar .plain (String.ofList name)
  have keyed := insertAt_length [scalar] b.tokens
    (show (b.marked ⟨b.tokens.length, p, required⟩ name ⟨':' :: more, q⟩).tokens =
      [scalar] ++ b.tokens from rfl) .key
  rw [value]
  simp only [Blocks.marked] at keyed ⊢
  rw [keyed, indentTo]
  by_cases inside : (p.column : Int) ≤ b.indent
  · rw [if_pos (.inr inside), Blocks.enter, if_pos inside]
    rfl
  · rw [if_neg (by simpa [inFlow] using inside), Blocks.enter, if_neg inside]
    rw [insertAt_length [scalar, .key] b.tokens rfl]
    rfl

theorem token_colon {s : Scanner} {rest : List Char} (block : s.inFlow = false)
    (inside : s.column ≠ 0) (apart : endsWord rest = true) : s.token ':' rest = s.value := by
  rw [token]
  simp [block, inside, apart]

theorem dropStale_name (b : Blocks) {name : List Char} (isName : IsName name) (p : Position)
    (required : Bool) (more : List Char) :
    (b.marked ⟨b.tokens.length, p, required⟩ name ⟨':' :: more, p.over name⟩).skip.dropStale =
      .ok (b.marked ⟨b.tokens.length, p, required⟩ name ⟨':' :: more, p.over name⟩) := by
  have skip : (b.marked ⟨b.tokens.length, p, required⟩ name ⟨':' :: more, p.over name⟩).skip =
      b.marked ⟨b.tokens.length, p, required⟩ name ⟨':' :: more, p.over name⟩ := by
    simp only [Scanner.skip, Blocks.marked, inFlow, skipBetween]
    rfl
  have fresh : stale (p.over name) ⟨b.tokens.length, p, required⟩ = false := by
    have offset := Position.offset_over_le name p
    have short := isName.short
    simp only [stale, Position.line_over isName.oneLine, longestKey, decide_eq_false_iff_not]
    omega
  rw [skip]
  simp only [dropStale, Blocks.marked, fresh]
  rfl

theorem token_of_isAlpha {s : Scanner} {c : Char} {rest : List Char} (block : s.inFlow = false)
    (alpha : c.isAlpha = true) : s.token c rest = s.plainScalar := by
  have noLead : Scalar.leadIndicators.any Char.isAlpha = false := by decide
  refine token_plain block ?_ ?_ ?_ fun _ => ?_
  · rw [isSpaceOrBreak, isSpace_of_isAlpha alpha, isBreak_of_isAlpha alpha]
    rfl
  · refine Bool.eq_false_iff.mpr fun among => ?_
    exact List.any_eq_false.mp noLead c (List.contains_iff_mem.mp among) alpha
  · rintro (rfl | rfl | rfl) <;> cases alpha
  · unfold atDocumentMark
    split
    · next same => cases same; cases alpha
    · next same => cases same; cases alpha
    · rfl

theorem run_name (b : Blocks) {depth : Nat} (within : b.indent ≤ depth) {name : List Char}
    (isName : IsName name) {more : List Char} (apart : endsWord more = true) {p : Position}
    (column : p.column = 0) :
    ∃ q : Position, depth < q.column ∧ ∀ fuel,
      run (fuel + 2) (b.scanner true ⟨Scalar.indentation depth ++ (name ++ ':' :: more), p⟩) =
        run fuel (((b.enter depth).emit [.key, .scalar .plain (String.ofList name), .value]).scanner
          false ⟨more, q⟩) := by
  obtain ⟨c, rest, rfl, alpha⟩ := isName.starts
  let start := p.over (Scalar.indentation depth)
  have startColumn : start.column = depth := by
    rw [Position.column_over_indentation, column, Nat.zero_add]
  let behind := start.over (c :: rest)
  have behindColumn : behind.column = depth + (rest.length + 1) := by
    rw [Position.column_over isName.oneLine, startColumn, List.length_cons]
  have nextColumn : (behind.next ':').column = depth + (rest.length + 1) + 1 := by
    rw [Position.next_of_not_break rfl, behindColumn]
  refine ⟨behind.next ':', by omega, fun fuel => ?_⟩
  have first : (b.scanner true ⟨Scalar.indentation depth ++ (c :: rest ++ ':' :: more), p⟩).skip =
      b.scanner true ⟨c :: rest ++ ':' :: more, start⟩ := by
    rw [Blocks.skip_scanner, skipBetween_indentation, List.cons_append,
      skipBetween_of_isAlpha alpha]
  let named := b.marked ⟨b.tokens.length, start, decide (b.indent = start.column)⟩ (c :: rest)
    ⟨':' :: more, behind⟩
  have name : (b.scanner true ⟨c :: rest ++ ':' :: more, start⟩).token c (rest ++ ':' :: more) =
      .ok named := by
    rw [token_of_isAlpha rfl alpha, plainScalar_name b isName apart]
  have colon : named.token ':' more =
      .ok (((b.enter depth).emit [.key, .scalar .plain (String.ofList (c :: rest)), .value]).scanner
        false ⟨more, behind.next ':'⟩) := by
    have inside : named.column ≠ 0 := by
      rw [show named.column = behind.column from rfl, behindColumn]
      omega
    rw [token_colon rfl inside apart, value_name, startColumn]
  have atName : b.indent ≤ start.column := by omega
  have atColon : b.indent ≤ behind.column := by omega
  rw [run_succ (first ▸ Blocks.dropStale_scanner b true _) atName rfl name,
    run_succ (dropStale_name b isName _ _ _) atColon rfl colon]

end Scanner

end Yaml

end SpectrumViewer
