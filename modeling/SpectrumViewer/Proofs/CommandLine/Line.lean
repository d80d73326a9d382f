import SpectrumViewer.Proofs.CommandLine.Given

set_option autoImplicit false

/-!
The command lines that are read: those that give proper switches, each in one of its spellings, and
not two sources (`parse_eq_ok_iff`). A value that stands on its own is kept until the next argument
comes, so the reader is followed together with the arguments that it still has open.
-/

namespace SpectrumViewer

namespace CommandLine

open Arguments (bind_eq_ok_iff given takeAll?_eq_ok_iff)

/-- The ways to give a switch: on its own where it takes no value, else with the value behind an
equals sign or as an argument that does not look like a switch. -/
inductive Spells : Given → List String → Prop where
  | flag {s : Switch} : s.takesValue = false → Spells ⟨s, ""⟩ ["--" ++ s.name]
  | attached {s : Switch} {value : String} : s.takesValue = true →
      Spells ⟨s, value⟩ ["--" ++ s.name ++ "=" ++ value]
  | separate {s : Switch} {value : String} : s.takesValue = true →
      (value.toList.head? = some '-' → value = "-") → Spells ⟨s, value⟩ ["--" ++ s.name, value]

/-- The command lines that give switches in an order. Two hyphens may stand at the end. -/
inductive Line : List Given → List String → Prop where
  | nil : Line [] []
  | stop : Line [] ["--"]
  | cons {g : Given} {gs : List Given} {args rest : List String} :
      Spells g args → Line gs rest → Line (g :: gs) (args ++ rest)

namespace Switch

theorem named?_name (s : Switch) : named? s.name = some s := by
  cases s <;> rfl

theorem name_of_named? {name : String} {s : Switch} (h : named? name = some s) : s.name = name := by
  have found := List.find?_some h
  exact of_decide_eq_true found

theorem exists_name (s : Switch) : ∃ c cs, s.name.toList = c :: cs ∧ '=' ∉ c :: cs := by
  cases s <;> exact ⟨_, _, rfl, by decide⟩

end Switch

namespace Word

theorem ofString_name (s : Switch) : ofString ("--" ++ s.name) = .long s.name none := by
  cases s <;> rfl

theorem ofString_value (s : Switch) (value : String) :
    ofString ("--" ++ s.name ++ "=" ++ value) = .long s.name (some value) := by
  obtain ⟨c, cs, shape, plain⟩ := s.exists_name
  have within : ∀ d ∈ c :: cs, decide (d ≠ '=') = true := fun d member =>
    decide_eq_true fun equals => plain (equals ▸ member)
  have written : ("--" ++ s.name ++ "=" ++ value).toList =
      '-' :: '-' :: ((c :: cs) ++ '=' :: value.toList) := by
    simp only [String.toList_append, shape, List.append_assoc]
    rfl
  have front : ((c :: cs) ++ '=' :: value.toList).takeWhile (· ≠ '=') = c :: cs := by
    rw [List.takeWhile_append_of_pos within]
    exact List.append_nil _
  have behind : ((c :: cs) ++ '=' :: value.toList).dropWhile (· ≠ '=') = '=' :: value.toList :=
    List.dropWhile_append_of_pos within
  unfold ofString
  rw [written]
  simp only [List.cons_append] at front behind ⊢
  rw [front, behind, ← shape]
  simp only [String.ofList_toList]

theorem ofString_plain {text : String} (h : text.toList.head? = some '-' → text = "-") :
    ofString text = .plain text := by
  by_cases hyphen : text = "-"
  · rw [hyphen]
    rfl
  · have plain := mt h hyphen
    unfold ofString
    split
    · next shape => exact absurd (congrArg List.head? shape) plain
    · next shape => exact absurd (congrArg List.head? shape) plain
    · next shape => exact absurd (congrArg List.head? shape) plain
    · rfl

theorem eq_of_ofString_stop {text : String} (h : ofString text = .stop) : text = "--" := by
  unfold ofString at h
  split at h
  · next shape => exact String.toList_inj.mp shape
  · split at h <;> cases h
  · cases h
  · cases h

theorem eq_of_ofString_long {text name : String} {value : Option String}
    (h : ofString text = .long name value) :
    text = match value with
      | none => "--" ++ name
      | some value => "--" ++ name ++ "=" ++ value := by
  unfold ofString at h
  split at h
  · cases h
  · next cs _ shape =>
    have parts := List.takeWhile_append_dropWhile (p := (· ≠ '=')) (l := cs)
    split at h
    · next c value behind =>
      have stopped := List.head?_dropWhile_not (· ≠ '=') cs
      rw [behind] at parts stopped
      obtain rfl : c = '=' := of_not_not (of_decide_eq_false stopped)
      cases h
      rw [← String.toList_inj, shape]
      simp only [String.toList_append, String.toList_ofList, List.append_assoc]
      exact congrArg (['-', '-'] ++ ·) parts.symm
    · next behind =>
      rw [behind, List.append_nil] at parts
      cases h
      rw [← String.toList_inj, shape]
      simp only [String.toList_append, String.toList_ofList]
      exact congrArg (['-', '-'] ++ ·) parts.symm
  · cases h
  · cases h

theorem eq_of_ofString_plain {text other : String} (h : ofString text = .plain other) :
    other = text ∧ (text.toList.head? = some '-' → text = "-") := by
  unfold ofString at h
  split at h
  · cases h
  · split at h <;> cases h
  · cases h
  · next stop long short =>
    cases h
    refine ⟨rfl, fun first => ?_⟩
    obtain ⟨rest, shape⟩ := List.head?_eq_some_iff.mp first
    cases rest with
    | nil => exact String.toList_inj.mp shape
    | cons c cs => exact absurd shape (short c cs)

end Word

namespace Progress

/-- The arguments of the pending switch. -/
def openWords (p : Progress) : List String :=
  match p.pending with
  | none => []
  | some (s, value) => ("--" ++ s.name) :: value.toList

/-- A pending switch takes a value, and the one that was seen does not look like a switch. -/
def Sound (p : Progress) : Prop :=
  ∀ s value, p.pending = some (s, value) →
    s.takesValue = true ∧ ∀ text ∈ value, text.toList.head? = some '-' → text = "-"

/-- The arguments at the end of a line, unless two sources are named. -/
def conclude (a : Arguments) : Except Reply Arguments :=
  if a.sourceCount ≤ 1 then .ok a else .error (.refused .conflict)

section Switch

variable (p : Progress) {s : Switch}

theorem switch_whole {value : Option String} (whole : s.takesValue = value.isSome) :
    p.switch s value =
      p.settle >>= fun a => a.take? s (value.getD "") >>= fun b => pure ⟨b, none⟩ := by
  unfold switch
  rw [whole]
  cases value <;> rfl

theorem switch_open (takes : s.takesValue = true) :
    p.switch s none = p.settle >>= fun a => pure ⟨a, some (s, none)⟩ := by
  unfold switch
  rw [takes]

theorem switch_needless (flag : s.takesValue = false) (value : String) :
    p.switch s (some value) = .error (.refused .needlessValue) := by
  unfold switch
  rw [flag]

end Switch

theorem run_long {s : Switch} {value : Option String} {text : String}
    (h : Word.ofString text = .long s.name value) (p : Progress) (rest : List String) :
    p.run (text :: rest) = p.switch s value >>= fun next => next.run rest := by
  rw [run, h]
  dsimp only
  rw [step, s.named?_name]

/-- A line takes in what it gives after what is pending. -/
theorem run_line {gs : List Given} {argv : List String} (line : Line gs argv) (p : Progress) :
    p.run argv = p.settle >>= fun a => a.takeAll? gs >>= conclude := by
  induction line generalizing p with
  | nil => rfl
  | stop => rfl
  | @cons g gs args rest spells line ih =>
    cases spells with
    | @flag s flag =>
      rw [List.singleton_append, run_long (Word.ofString_name s), switch_whole p flag]
      simp only [bind_assoc, pure_bind, ih, Arguments.takeAll?, List.foldlM_cons]
      rfl
    | @attached s value takes =>
      rw [List.singleton_append, run_long (Word.ofString_value s value), switch_whole p takes]
      simp only [bind_assoc, pure_bind, ih, Arguments.takeAll?, List.foldlM_cons]
      rfl
    | @separate s value takes plain =>
      rw [List.cons_append, run_long (Word.ofString_name s), switch_open p takes,
        List.singleton_append]
      have keep (a : Arguments) : run ⟨a, some (s, none)⟩ (value :: rest) =
          run ⟨a, some (s, some value)⟩ rest := by
        rw [run, Word.ofString_plain plain]
        rfl
      simp only [bind_assoc, pure_bind, keep, ih, Arguments.takeAll?, List.foldlM_cons]
      rfl

variable {p : Progress}

theorem Sound.exists_line (sound : p.Sound) {a : Arguments} (settled : p.settle = .ok a)
    {gs : List Given} {argv : List String} (line : Line gs argv) :
    ∃ gs, Line gs (p.openWords ++ argv) := by
  obtain ⟨arguments, pending⟩ := p
  cases pending with
  | none => exact ⟨gs, line⟩
  | some pending =>
    obtain ⟨s, value⟩ := pending
    cases value with
    | none => cases settled
    | some value =>
      obtain ⟨takes, plain⟩ := sound s (some value) rfl
      exact ⟨_, .cons (.separate takes (plain value rfl)) line⟩

theorem sound_of_none (a : Arguments) : Sound ⟨a, none⟩ := nofun

theorem sound_open (a : Arguments) {s : Switch} (takes : s.takesValue = true)
    {value : Option String} (plain : ∀ text ∈ value, text.toList.head? = some '-' → text = "-") :
    Sound ⟨a, some (s, value)⟩ := by
  rintro _ _ ⟨⟩
  exact ⟨takes, plain⟩

theorem spells_whole {s : Switch} {value : Option String} {text : String}
    (word : Word.ofString text = .long s.name value) (whole : s.takesValue = value.isSome) :
    Spells ⟨s, value.getD ""⟩ [text] := by
  have spelled := Word.eq_of_ofString_long word
  cases value with
  | none => exact spelled ▸ .flag whole
  | some value => exact spelled ▸ .attached whole

/-- A switch that is read leaves a sound progress, and a line behind it becomes one with it. -/
theorem switch_ok (sound : p.Sound) {s : Switch} {value : Option String} {text : String}
    (word : Word.ofString text = .long s.name value) {next : Progress}
    (h : p.switch s value = .ok next) : next.Sound ∧
      ∀ gs rest, Line gs (next.openWords ++ rest) →
        ∃ gs, Line gs (p.openWords ++ text :: rest) := by
  by_cases whole : s.takesValue = value.isSome
  · rw [switch_whole p whole, bind_eq_ok_iff] at h
    obtain ⟨a, settled, taken⟩ := h
    obtain ⟨b, -, ⟨⟩⟩ := bind_eq_ok_iff.mp taken
    exact ⟨sound_of_none b, fun gs rest line =>
      sound.exists_line settled (.cons (spells_whole word whole) line)⟩
  · cases value with
    | none =>
      have takes : s.takesValue = true := eq_true_of_ne_false whole
      rw [switch_open p takes, bind_eq_ok_iff] at h
      obtain ⟨a, settled, ⟨⟩⟩ := h
      refine ⟨sound_open a takes nofun, fun gs rest line => ?_⟩
      rw [Word.eq_of_ofString_long word]
      exact sound.exists_line settled line
    | some value =>
      rw [switch_needless p (eq_false_of_ne_true whole) value] at h
      cases h

theorem switch_lettered {letter : Char} {s : Switch} (h : Switch.lettered? letter = some s)
    {next : Progress} : p.switch s none ≠ .ok next := by
  have found := List.find?_some h
  have lettered := of_decide_eq_true found
  cases s with
  | help | version =>
    intro h
    rw [switch_whole p rfl, bind_eq_ok_iff] at h
    obtain ⟨a, -, ⟨⟩⟩ := h
  | _ => cases lettered

theorem step_ok (sound : p.Sound) {text : String} {next : Progress}
    (h : p.step (Word.ofString text) = .ok next) (more : Word.ofString text ≠ .stop) : next.Sound ∧
      ∀ gs rest, Line gs (next.openWords ++ rest) →
        ∃ gs, Line gs (p.openWords ++ text :: rest) := by
  cases word : Word.ofString text with
  | stop => exact absurd word more
  | long name value =>
    rw [word, step] at h
    split at h
    · next s named =>
      rw [← Switch.name_of_named? named] at word
      exact switch_ok sound word h
    · cases h
  | short letter =>
    rw [word, step] at h
    split at h
    · next s lettered => exact absurd h (switch_lettered lettered)
    · cases h
  | plain other =>
    obtain ⟨rfl, plain⟩ := Word.eq_of_ofString_plain word
    rw [word, step] at h
    split at h
    · next s pending =>
      cases h
      obtain ⟨takes, -⟩ := sound s none pending
      refine ⟨sound_open _ takes (by rintro _ ⟨⟩; exact plain), fun gs rest line => ⟨gs, ?_⟩⟩
      rw [openWords, pending]
      exact line
    · cases h

/-- What is read is a line, together with what was still open. -/
theorem exists_line (sound : p.Sound) {argv : List String} {a : Arguments}
    (h : p.run argv = .ok a) : ∃ gs, Line gs (p.openWords ++ argv) := by
  induction argv generalizing p with
  | nil =>
    obtain ⟨_, settled, -⟩ := bind_eq_ok_iff.mp h
    exact sound.exists_line settled .nil
  | cons text rest ih =>
    rw [run] at h
    split at h
    · next word =>
      rw [Word.eq_of_ofString_stop word]
      split at h
      · next last =>
        obtain ⟨_, settled, -⟩ := bind_eq_ok_iff.mp h
        rw [last]
        exact sound.exists_line settled .stop
      · cases h
    · next word =>
      obtain ⟨next, stepped, h⟩ := bind_eq_ok_iff.mp h
      obtain ⟨sound, back⟩ := step_ok sound stepped word
      obtain ⟨gs, line⟩ := ih sound h
      exact back gs rest line

end Progress

theorem parse_line {gs : List Given} {argv : List String} (line : Line gs argv) :
    parse argv = Arguments.empty.takeAll? gs >>= Progress.conclude :=
  Progress.run_line line .start

theorem conclude_eq_ok_iff {a b : Arguments} :
    Progress.conclude a = .ok b ↔ a.sourceCount ≤ 1 ∧ b = a := by
  rw [Progress.conclude]
  split
  · next few => exact ⟨fun h => ⟨few, (Except.ok.inj h).symm⟩, by rintro ⟨-, rfl⟩; rfl⟩
  · next many => exact iff_of_false (by rintro ⟨⟩) fun h => many h.1

/-- A line is read exactly if it gives proper switches and at most one source. -/
theorem parse_line_eq_ok_iff {gs : List Given} {argv : List String} (line : Line gs argv)
    {a : Arguments} :
    parse argv = .ok a ↔ Proper gs ∧ (given gs).sourceCount ≤ 1 ∧ a = given gs := by
  rw [parse_line line, bind_eq_ok_iff]
  constructor
  · rintro ⟨b, taken, concluded⟩
    obtain ⟨proper, rfl⟩ := takeAll?_eq_ok_iff.mp taken
    exact ⟨proper, conclude_eq_ok_iff.mp concluded⟩
  · rintro ⟨proper, few, rfl⟩
    exact ⟨given gs, takeAll?_eq_ok_iff.mpr ⟨proper, rfl⟩, conclude_eq_ok_iff.mpr ⟨few, rfl⟩⟩

/-- The command lines that are read, and as what. -/
theorem parse_eq_ok_iff {argv : List String} {a : Arguments} :
    parse argv = .ok a ↔
      ∃ gs, Line gs argv ∧ Proper gs ∧ (given gs).sourceCount ≤ 1 ∧ a = given gs := by
  constructor
  · intro h
    obtain ⟨gs, line⟩ := Progress.exists_line (Progress.sound_of_none .empty) h
    exact ⟨gs, line, (parse_line_eq_ok_iff line).mp h⟩
  · rintro ⟨gs, line, read⟩
    exact (parse_line_eq_ok_iff line).mpr read

/-- Proper switches that name two sources are refused for it. -/
theorem parse_eq_conflict {gs : List Given} {argv : List String} (line : Line gs argv)
    (proper : Proper gs) (many : 1 < (given gs).sourceCount) :
    parse argv = .error (.refused .conflict) := by
  rw [parse_line line, takeAll?_eq_ok_iff.mpr ⟨proper, rfl⟩]
  exact if_neg (Nat.not_le.mpr many)

end CommandLine

end SpectrumViewer
