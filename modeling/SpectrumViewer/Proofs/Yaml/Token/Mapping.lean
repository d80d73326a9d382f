import SpectrumViewer.Proofs.Yaml.Token.Value

set_option autoImplicit false

/-!
The entries of a mapping, one deep in another or a whole document (`scan_mapping`).
-/

namespace SpectrumViewer

namespace Yaml

namespace Binding

open Scanner

/-- Its lines are read as its tokens. -/
structure Prints (depth : Nat) (e : Binding) : Prop where
  name : IsName e.name.toList
  value : Scanner.Prints depth e.lines e.tokens

variable {depth : Nat} {e : Binding}

theorem Prints.scans (prints : e.Prints depth) {b : Blocks} (within : b.indent ≤ depth)
    {p : Position} (column : p.column = 0) {rest : List Char} (follows : Follows depth rest) :
    ∃ q : Position, q.column = 0 ∧
      Scans (b.scanner true ⟨e.text depth ++ rest, p⟩)
        (((b.enter depth).emit e.allTokens).scanner true ⟨rest, q⟩) := by
  obtain ⟨p', inside, name⟩ := run_name b within prints.name (prints.value.apart rest) column
  obtain ⟨q, column', value⟩ := prints.value.scans
    ((b.enter depth).emit [.key, .scalar .plain e.name, .value]) p' (b.enter_indent within) inside
    follows
  rw [Blocks.emit_emit] at value
  rw [String.ofList_toList] at name
  refine ⟨q, column', Scans.trans ⟨2, ?_, ?_⟩ value⟩
  · simp only [text, Blocks.scanner, List.length_append, List.length_cons]
    have nonempty := prints.name.length_pos
    omega
  · simpa [text] using name

theorem Prints.follows (prints : e.Prints depth) (rest : List Char) :
    Follows depth (e.text depth ++ rest) := by
  obtain ⟨c, more, name, alpha⟩ := prints.name.starts
  have entry : Follows depth
      (Scalar.indentation depth ++ c :: (more ++ ':' :: (e.lines ++ rest))) :=
    .entry (Nat.le_refl depth) alpha
  simpa [text, name] using entry

end Binding

namespace Scanner

variable {depth : Nat}

theorem follows_entries {entries : List Binding} (prints : ∀ e ∈ entries, e.Prints depth)
    {rest : List Char} (follows : Follows depth rest) :
    Follows depth (entries.flatMap (Binding.text depth) ++ rest) := by
  cases entries with
  | nil => exact follows
  | cons e entries =>
    rw [List.flatMap_cons, List.append_assoc]
    exact (prints e List.mem_cons_self).follows _

/-- The entries of a mapping. The first one opens its block. -/
theorem scans_entries {entries : List Binding} (nonempty : entries ≠ [])
    (prints : ∀ e ∈ entries, e.Prints depth) {b : Blocks} (within : b.indent ≤ depth)
    {p : Position} (column : p.column = 0) {rest : List Char} (follows : Follows depth rest) :
    ∃ q : Position, q.column = 0 ∧
      Scans (b.scanner true ⟨entries.flatMap (Binding.text depth) ++ rest, p⟩)
        (((b.enter depth).emit (entries.flatMap Binding.allTokens)).scanner true ⟨rest, q⟩) := by
  induction entries generalizing b p with
  | nil => exact absurd rfl nonempty
  | cons e entries ih =>
    obtain ⟨here, later⟩ := List.forall_mem_cons.mp prints
    obtain ⟨q, column', first⟩ := here.scans within column (follows_entries later follows)
    simp only [List.flatMap_cons, List.append_assoc]
    by_cases last : entries = []
    · subst last
      exact ⟨q, column', by simpa using first⟩
    · have opened : ((b.enter depth).emit e.allTokens).indent = depth := b.enter_indent within
      obtain ⟨r, column'', others⟩ := ih last later (Int.le_of_eq opened) column'
      rw [Blocks.enter_of_eq _ opened, Blocks.emit_emit] at others
      exact ⟨r, column'', first.trans others⟩

theorem unindent_scanner {b : Blocks} {column : Int} {next : Int} {outer : List Int}
    (outer_eq : b.outer = next :: outer) (ends : column < b.indent) (keyAllowed : Bool)
    (c : Cursor) :
    (b.scanner keyAllowed c).unindent column =
      (Blocks.scanner ⟨.blockEnd :: b.tokens, next, outer⟩ keyAllowed c).unindent column := by
  have close : closeBlocks column b.tokens b.indent b.outer =
      closeBlocks column (.blockEnd :: b.tokens) next outer := by
    rw [outer_eq, closeBlocks, if_pos ends]
  simp only [unindent, Blocks.scanner, close]
  rfl

theorem run_blockEnd {b : Blocks} {next : Int} {outer : List Int}
    (outer_eq : b.outer = next :: outer) (deeper : depth < b.indent) {rest : List Char}
    (follows : Follows depth rest) {q : Position} (column : q.column = 0) (fuel : Nat) :
    run fuel (b.scanner true ⟨rest, q⟩) =
      run fuel (Blocks.scanner ⟨.blockEnd :: b.tokens, next, outer⟩ true ⟨rest, q⟩) := by
  cases fuel with
  | zero => rfl
  | succ fuel =>
    have ends : ((settle q rest).position.column : Int) < b.indent := by
      have bound := follows.column_settle column
      omega
    rw [run, run, Blocks.skip_scanner, Blocks.skip_scanner]
    simp only [Blocks.dropStale_scanner, bind, Except.bind]
    have close := unindent_scanner outer_eq ends (skipBetween false false true q rest).2
      (settle q rest)
    simp only [settle] at close
    simp only [Scanner.column, Blocks.scanner] at close ⊢
    rw [close]

theorem prints_mapping {entries : List Binding} (nonempty : entries ≠ [])
    (prints : ∀ e ∈ entries, e.Prints (depth + 2)) :
    Prints depth ('\n' :: entries.flatMap (Binding.text (depth + 2)))
      (.blockMappingStart :: entries.flatMap Binding.allTokens ++ [.blockEnd]) := by
  refine ⟨fun _ => rfl, fun b p rest indent inside follows => ?_⟩
  have within : b.indent ≤ (depth + 2 : Nat) := by omega
  have opened : b.enter (depth + 2) =
      ⟨.blockMappingStart :: b.tokens, (depth + 2 : Nat), b.indent :: b.outer⟩ :=
    if_neg (by omega)
  obtain ⟨q, column, scans⟩ := scans_entries nonempty prints within
    (p := p.next '\n') rfl (follows.mono (Nat.le_add_right depth 2))
  let lines := entries.flatMap (Binding.text (depth + 2))
  have starts : Scans (b.scanner false ⟨'\n' :: lines ++ rest, p⟩)
      (b.scanner true ⟨lines ++ rest, p.next '\n'⟩) :=
    scans_of_run (by simp [Blocks.scanner]) (run_congr rfl)
  let tokens := entries.flatMap Binding.allTokens
  have ends : Scans (((b.enter (depth + 2)).emit tokens).scanner true ⟨rest, q⟩)
      ((b.emit (.blockMappingStart :: tokens ++ [.blockEnd])).scanner true ⟨rest, q⟩) := by
    have outer : ((b.enter (depth + 2)).emit tokens).outer = b.indent :: b.outer := by
      rw [opened]
      rfl
    have deeper : (depth : Int) < ((b.enter (depth + 2)).emit tokens).indent := by
      rw [Blocks.emit_indent, b.enter_indent within]
      omega
    refine scans_of_run (Nat.le_refl _) fun fuel => ?_
    rw [run_blockEnd outer deeper follows column, opened]
    simp [Blocks.emit]
  exact ⟨q, column, starts.trans (scans.trans ends)⟩

theorem run_end {b : Blocks} (indent : b.indent = 0) (outer : b.outer = [-1]) (q : Position)
    (fuel : Nat) :
    run (fuel + 1) (b.scanner true ⟨[], q⟩) =
      .ok (Blocks.scanner ⟨.blockEnd :: b.tokens, -1, []⟩ true ⟨[], q⟩) := by
  obtain ⟨tokens, _, _⟩ := b
  subst indent outer
  have here : (Blocks.scanner ⟨tokens, 0, [-1]⟩ true ⟨[], q⟩).unindent q.column =
      Blocks.scanner ⟨tokens, 0, [-1]⟩ true ⟨[], q⟩ :=
    unindent_of_le (Int.natCast_nonneg q.column)
  rw [run, Blocks.skip_scanner]
  simp only [skipBetween, Blocks.dropStale_scanner, bind, Except.bind]
  rw [show (Blocks.scanner ⟨tokens, 0, [-1]⟩ true ⟨[], q⟩).column = q.column from rfl, here]
  rfl

theorem uniformBreaks_of_printable {cs : List Char}
    (printable : ∀ c ∈ cs, Scalar.isPrintable c = true) : uniformBreaks cs = cs := by
  induction cs with
  | nil => rfl
  | cons c cs ih =>
    obtain ⟨here, later⟩ := List.forall_mem_cons.mp printable
    rw [uniformBreaks_cons, ih later]
    · rintro rfl
      exact absurd here (by decide)
    · rintro rfl
      exact absurd here (by decide)

/-- The tokens of a document that is a mapping. -/
theorem scan_mapping {entries : List Binding} (nonempty : entries ≠ [])
    (prints : ∀ e ∈ entries, e.Prints 0)
    (printable : ∀ c ∈ entries.flatMap (Binding.text 0), Scalar.isPrintable c = true) :
    Token.scan (entries.flatMap (Binding.text 0)) =
      .ok (.blockMappingStart :: entries.flatMap Binding.allTokens ++ [.blockEnd]) := by
  let text := entries.flatMap (Binding.text 0)
  have allowed : text.find? (!isAllowed ·) = none := by
    refine List.find?_eq_none.mpr fun c among => ?_
    have fits := printable c among
    simp only [Scalar.isPrintable, Bool.and_eq_true] at fits
    simp [fits]
  let b : Blocks := ⟨[], -1, []⟩
  have start : Scanner.start text = b.scanner true ⟨text ++ [], .start⟩ := by
    rw [List.append_nil, Scanner.start, uniformBreaks_of_printable printable]
    rfl
  obtain ⟨q, column, count, bound, run_eq⟩ := scans_entries nonempty prints (b := b) (by decide)
    (p := .start) rfl .nothing
  have fuel : text.length + 1 = (text.length - count + 1) + count := by
    have bound' : count ≤ (text ++ []).length := bound
    rw [List.append_nil] at bound'
    omega
  rw [Token.scan, allowed, start, fuel, run_eq, run_end rfl rfl]
  simp [b, Blocks.scanner, Blocks.emit, Blocks.enter]

end Scanner

end Yaml

end SpectrumViewer
