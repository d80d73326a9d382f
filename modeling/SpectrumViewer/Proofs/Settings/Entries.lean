import SpectrumViewer.Proofs.Number.Order
import SpectrumViewer.Proofs.Settings.Numerals
import SpectrumViewer.Proofs.Yaml.Document
import SpectrumViewer.Settings.Parser

set_option autoImplicit false

/-!
The fields of settings as entries of a document. Each field is written as one entry
(`text_entryOf`), and the node of that entry sets the field to the value it had (`set?_entryOf`).
-/

namespace SpectrumViewer

open Yaml

namespace Binary32

/-- A finite value that is whole and at most `2 ^ 24` in magnitude. -/
def IsSmallWhole (x : Binary32) : Prop := ∃ k : Int, x.value? = some (k : ℚ) ∧ k.natAbs ≤ 2 ^ 24

theorem isSmallWhole_ofNat {n : Nat} (small : n ≤ 2 ^ 24) : (ofNat n).IsSmallWhole :=
  ⟨n, value?_ofNat (representable_natCast small), small⟩

end Binary32

namespace Yaml.Plain

/-- A text that is written without quotes, whatever it stands for. -/
structure IsWord (cs : List Char) : Prop where
  holds : Holds cs
  printable : ∀ c ∈ cs, Scalar.isPrintable c = true

theorem isWord_of_word {c : Char} {cs : List Char} (first : isWord c = true)
    (hyphen : c = '-' → cs ≠ []) (word : ∀ d ∈ cs, isWord d = true ∨ d = '.') :
    IsWord (c :: cs) := by
  refine ⟨holds_of_word first hyphen word, fun d among => ?_⟩
  rcases List.mem_cons.mp among with rfl | later
  · exact Scalar.isPrintable_of_isWord first
  · rcases word d later with word | rfl
    · exact Scalar.isPrintable_of_isWord word
    · rfl

theorem isWord_of_isAlpha {cs : List Char} (nonempty : cs ≠ [])
    (alpha : cs.all Char.isAlpha = true) : IsWord cs := by
  have word : ∀ c ∈ cs, isWord c = true := fun c among => by
    simp [isWord, Char.isAlphanum, List.all_eq_true.mp alpha c among]
  obtain ⟨c, cs, rfl⟩ := List.exists_cons_of_ne_nil nonempty
  obtain ⟨here, later⟩ := List.forall_mem_cons.mp word
  refine isWord_of_word here ?_ fun d among => .inl (later d among)
  rintro rfl
  cases alpha

theorem isWord_of_isDigit {c : Char} (digit : c.isDigit = true) : isWord c = true := by
  simp [isWord, Char.isAlphanum, digit]

theorem isWord_toDigits (n : Nat) : IsWord (Nat.toDigits 10 n) := by
  obtain ⟨c, cs, same⟩ := List.exists_cons_of_ne_nil (@Nat.toDigits_ne_nil n 10)
  have digits := Decimal.allDigits_toDigits n
  rw [same] at digits ⊢
  obtain ⟨here, later⟩ := List.forall_mem_cons.mp digits
  refine isWord_of_word (isWord_of_isDigit here) ?_ fun d among =>
    .inl (isWord_of_isDigit (later d among))
  rintro rfl
  cases here

theorem isWord_text {x : Binary32} (whole : x.IsSmallWhole) :
    IsWord (NumeralStyle.document.text x) := by
  obtain ⟨k, value, small⟩ := whole
  obtain ⟨negative, code, front, -, -, text, digits, nonempty, -⟩ :=
    Literal.exists_text_eq value small
  obtain ⟨c, cs, rfl⟩ := List.exists_cons_of_ne_nil nonempty
  obtain ⟨here, later⟩ := List.forall_mem_cons.mp digits
  have ending : ∀ d ∈ cs ++ '.' :: ['0'], isWord d = true ∨ d = '.' :=
    List.forall_mem_append.mpr ⟨fun d among => .inl (isWord_of_isDigit (later d among)),
      List.forall_mem_cons.mpr ⟨.inr rfl, List.forall_mem_singleton.mpr (.inl rfl)⟩⟩
  rw [text]
  cases negative with
  | false =>
    refine isWord_of_word (isWord_of_isDigit here) ?_ ending
    rintro rfl
    cases here
  | true =>
    exact isWord_of_word rfl (fun _ => List.cons_ne_nil _ _)
      (List.forall_mem_cons.mpr ⟨.inl (isWord_of_isDigit here), ending⟩)

end Yaml.Plain

namespace Settings

/-- The entry of the lead of a framing, which may have none. -/
def leadEntry : Option String → Binding
  | some lead => .ofText indentStep Framing.leadName lead.toList
  | none => .plain Framing.leadName "null".toList

def framingEntries (framing : Framing) : List Binding :=
  [.ofText indentStep Framing.openingName framing.opening.toList,
    .ofText indentStep Framing.closingName framing.closing.toList,
    leadEntry framing.lead]

def entryOf (s : Settings) (field : Field) : Binding :=
  match field with
  | .sampleRate => .plain field.name (NumeralStyle.document.text s.sampleRate)
  | .fftSize => .plain field.name (Nat.toDigits 10 s.fftSize.toNat)
  | .baudRate => .plain field.name (Nat.toDigits 10 s.baudRate.toNat)
  | .framing => .mapping indentStep field.name (framingEntries s.framing)
  | .waterfallDepth => .plain field.name (Nat.toDigits 10 s.waterfallDepth.toNat)
  | .waterfallWidth => .plain field.name (match s.waterfallWidth with
    | some width => Nat.toDigits 10 width.toNat
    | none => "null".toList)
  | .newestAt => .plain field.name (edgeWord s.newestAt).toList
  | .intensity => .plain field.name (curveWord s.intensity).toList
  | .windowWidth => .plain field.name (NumeralStyle.document.text s.windowWidth)
  | .windowHeight => .plain field.name (NumeralStyle.document.text s.windowHeight)
  | .repaintInterval => .plain field.name (Nat.toDigits 10 s.repaintInterval.toNat)

theorem text_plain (depth : Nat) (name : String) (cs : List Char) :
    (Binding.plain name cs).text depth = entry depth name (cs ++ ['\n']) := by
  simp [Binding.text, Binding.plain, entry]

theorem text_ofText (depth : Nat) (name : String) (cs : List Char) :
    (Binding.ofText depth name cs).text depth =
      entry depth name (Scalar.written (depth + 2) cs) := by
  simp [Binding.text, Binding.ofText, entry]

theorem wholeLine_eq (n : Nat) : wholeLine n = Nat.toDigits 10 n ++ ['\n'] := by
  rw [wholeLine, line, Nat.toString_eq_ofList_toDigits, String.toList_ofList]

theorem text_framingEntries (framing : Framing) :
    (framingEntries framing).flatMap (Binding.text indentStep) = framingLines framing := by
  obtain ⟨opening, closing, lead⟩ := framing
  cases lead <;>
    simp only [framingEntries, leadEntry, framingLines, List.flatMap_cons, List.flatMap_nil,
      List.append_nil, List.append_assoc, text_ofText, text_plain, line] <;>
    rfl

theorem text_entryOf (s : Settings) (field : Field) :
    (s.entryOf field).text 0 = s.fieldLines field := by
  cases field with
  | framing =>
    rw [entryOf, fieldLines, ← text_framingEntries, Binding.text]
    exact List.nil_append _
  | waterfallWidth =>
    rw [entryOf, fieldLines, text_plain]
    cases s.waterfallWidth with
    | none => rfl
    | some width =>
      exact congrArg (entry 0 Field.waterfallWidth.name) (wholeLine_eq width.toNat).symm
  | _ => simp only [entryOf, fieldLines, text_plain, numberLine, wholeLine_eq, line]

theorem linesOf_eq (s : Settings) (fields : List Field) :
    s.linesOf fields = (fields.map s.entryOf).flatMap (Binding.text 0) := by
  rw [linesOf, List.flatMap_map]
  exact List.flatMap_congr fun field _ => (s.text_entryOf field).symm

theorem name_entryOf (s : Settings) (field : Field) : (s.entryOf field).name = field.name := by
  cases field <;> rfl

theorem isName_of_all {c : Char} {cs : List Char} (first : c.isAlpha = true)
    (word : (c :: cs).all isWord = true) (short : cs.length < 256) : Scanner.IsName (c :: cs) :=
  ⟨⟨c, cs, rfl, first⟩, List.all_eq_true.mp word, short⟩

theorem isName_name (field : Field) : Scanner.IsName field.name.toList := by
  cases field <;> exact isName_of_all rfl (by decide) (by decide)

theorem isWord_null : Plain.IsWord "null".toList :=
  Plain.isWord_of_isAlpha (by decide) (by decide)

theorem isWritten_framingEntries (framing : Framing) :
    ∀ e ∈ framingEntries framing, e.IsWritten indentStep := by
  have opening : Scanner.IsName Framing.openingName.toList :=
    isName_of_all rfl (by decide) (by decide)
  have closing : Scanner.IsName Framing.closingName.toList :=
    isName_of_all rfl (by decide) (by decide)
  have lead : Scanner.IsName Framing.leadName.toList :=
    isName_of_all rfl (by decide) (by decide)
  refine List.forall_mem_cons.mpr ⟨Binding.isWritten_ofText opening _,
    List.forall_mem_cons.mpr ⟨Binding.isWritten_ofText closing _, List.forall_mem_singleton.mpr ?_⟩⟩
  cases framing.lead with
  | some text => exact Binding.isWritten_ofText lead text.toList
  | none => exact Binding.isWritten_plain lead isWord_null.holds isWord_null.printable

/-- Numbers of settings that documents hold without loss. -/
structure IsWhole (s : Settings) : Prop where
  sampleRate : s.sampleRate.IsSmallWhole
  windowWidth : s.windowWidth.IsSmallWhole
  windowHeight : s.windowHeight.IsSmallWhole

theorem isWhole_standard : standard.IsWhole := by
  have whole (n : Nat) (small : n ≤ 2 ^ 24) : Binary32.IsSmallWhole (OfNat.ofNat n) :=
    Binary32.isSmallWhole_ofNat small
  unfold standard
  exact ⟨whole 44100 (by decide), whole 1200 (by decide), whole 950 (by decide)⟩

theorem isWritten_entryOf {s : Settings} (whole : s.IsWhole) (field : Field) :
    (s.entryOf field).IsWritten 0 := by
  have plain {cs : List Char} (word : Plain.IsWord cs) :
      (Binding.plain field.name cs).IsWritten 0 :=
    Binding.isWritten_plain (isName_name field) word.holds word.printable
  cases field with
  | sampleRate => exact plain (Plain.isWord_text whole.sampleRate)
  | windowWidth => exact plain (Plain.isWord_text whole.windowWidth)
  | windowHeight => exact plain (Plain.isWord_text whole.windowHeight)
  | fftSize => exact plain (Plain.isWord_toDigits _)
  | baudRate => exact plain (Plain.isWord_toDigits _)
  | waterfallDepth => exact plain (Plain.isWord_toDigits _)
  | repaintInterval => exact plain (Plain.isWord_toDigits _)
  | framing =>
    exact Binding.isWritten_mapping (isName_name .framing) (List.cons_ne_nil _ _)
      (isWritten_framingEntries s.framing)
  | waterfallWidth =>
    refine plain ?_
    cases s.waterfallWidth with
    | some width => exact Plain.isWord_toDigits _
    | none => exact isWord_null
  | newestAt =>
    refine plain ?_
    cases s.newestAt <;> exact Plain.isWord_of_isAlpha (by decide) (by decide)
  | intensity =>
    refine plain ?_
    cases s.intensity <;> exact Plain.isWord_of_isAlpha (by decide) (by decide)

variable (d : Document)

theorem number?_text {x : Binary32} (whole : x.IsSmallWhole) :
    d.number? (.scalar none .plain (String.ofList (NumeralStyle.document.text x))) = .ok x := by
  obtain ⟨k, value, small⟩ := whole
  have literal : d.literalOf? "float" (.scalar none .plain
      (String.ofList (NumeralStyle.document.text x))) = some (NumeralStyle.document.text x) :=
    congrArg some String.toList_ofList
  rw [Document.number?, literal, Option.bind_some, Literal.number?_text value small]

theorem whole?_toDigits {limit n : Nat} (small : n < limit) :
    d.whole? limit (.scalar none .plain (String.ofList (Nat.toDigits 10 n))) = .ok n := by
  have literal : d.literalOf? "int" (.scalar none .plain (String.ofList (Nat.toDigits 10 n))) =
      some (Nat.toDigits 10 n) := congrArg some String.toList_ofList
  rw [Document.whole?, literal, Option.bind_some, Literal.unsigned?_toDigits]
  exact if_pos small

theorem word?_toDigits (w : UInt64) :
    word? d (.scalar none .plain (String.ofList (Nat.toDigits 10 w.toNat))) = .ok w := by
  rw [word?, whole?_toDigits d w.toNat_lt_size]
  exact congrArg Except.ok (UInt64.ofNat_toNat)

theorem isPresent?_scalar {style : Style} {cs : List Char}
    (notNull : style = .plain → Literal.isNull cs = false) :
    d.isPresent? (.scalar none style (String.ofList cs)) = .ok true := by
  cases style with
  | plain =>
    have present : d.isPresent? (.scalar none .plain (String.ofList cs)) =
        .ok !Literal.isNull (String.ofList cs).toList := rfl
    rw [present, String.toList_ofList, notNull rfl]
    rfl
  | _ => rfl

theorem isNull_of_styleOf {cs : List Char} (plain : Scalar.styleOf cs = .plain) :
    Literal.isNull cs = false := by
  unfold Scalar.styleOf at plain
  split_ifs at plain with unfit lines blankEnd fits
  obtain ⟨printable, -⟩ := Bool.or_eq_false_iff.mp (Bool.eq_false_iff.mpr unfit)
  simp only [Bool.not_eq_false', List.all_eq_true] at printable
  exact (Plain.holds_of_isPlain printable fits).2

theorem text?_ofText (depth : Nat) (name text : String) :
    d.text? (Binding.ofText depth name text.toList).node = .ok text :=
  congrArg Except.ok String.ofList_toList

theorem optional?_leadEntry (lead : Option String) :
    d.optional? d.text? (leadEntry lead).node = .ok lead := by
  cases lead with
  | none => rfl
  | some lead =>
    have present := isPresent?_scalar d (@isNull_of_styleOf lead.toList)
    have text := text?_ofText d indentStep Framing.leadName lead
    dsimp only [leadEntry, Binding.ofText] at text ⊢
    rw [Document.optional?, present]
    simp only [bind, Except.bind, if_true, text]
    rfl

theorem ofNode?_framingEntries (framing : Framing) :
    Framing.ofNode? d (.mapping none ((framingEntries framing).map Binding.pair)) =
      .ok framing := by
  obtain ⟨opening, closing, lead⟩ := framing
  let fields := [
    (Framing.openingName, (Binding.ofText indentStep Framing.openingName opening.toList).node),
    (Framing.closingName, (Binding.ofText indentStep Framing.closingName closing.toList).node),
    (Framing.leadName, (leadEntry lead).node)]
  have read :
      d.fields? (.mapping none ((framingEntries ⟨opening, closing, lead⟩).map Binding.pair)) =
        .ok fields := by
    rw [d.fields?_entries]
    cases lead <;> rfl
  have distinct : Document.checkDistinct
      [Framing.openingName, Framing.closingName, Framing.leadName] fields = .ok () := rfl
  have first : Document.field? fields Framing.openingName = .ok _ := rfl
  have second : Document.field? fields Framing.closingName = .ok _ := rfl
  have third : fields.lookup Framing.leadName = some (leadEntry lead).node := rfl
  rw [Framing.ofNode?, read]
  simp only [bind, Except.bind, distinct, first, second, third, text?_ofText,
    optional?_leadEntry d lead]
  rfl

theorem edgeOf?_edgeWord (edge : NewestEdge) : edgeOf? (edgeWord edge) = some edge := by
  cases edge <;> decide

theorem curveOf?_curveWord (curve : Intensity) : curveOf? (curveWord curve) = some curve := by
  cases curve <;> decide

theorem caseOf?_word {α : Type} {find : String → Option α} {word : String} {a : α}
    (found : find word = some a) :
    caseOf? d find (.scalar none .plain (String.ofList word.toList)) = .ok a := by
  have case : d.case? (.scalar none .plain (String.ofList word.toList)) = .ok word :=
    congrArg Except.ok String.ofList_toList
  rw [caseOf?, case]
  simp only [bind, Except.bind, found]
  rfl

/-- The node of a field sets it. -/
theorem set?_entryOf {s : Settings} (whole : s.IsWhole) (base : Settings) (field : Field) :
    set? d base (s.entryOf field).node field = .ok (field.copy s base) := by
  cases field with
  | sampleRate => rw [set?, entryOf, Binding.plain, number?_text d whole.sampleRate]; rfl
  | windowWidth => rw [set?, entryOf, Binding.plain, number?_text d whole.windowWidth]; rfl
  | windowHeight => rw [set?, entryOf, Binding.plain, number?_text d whole.windowHeight]; rfl
  | fftSize => rw [set?, entryOf, Binding.plain, word?_toDigits]; rfl
  | baudRate =>
    rw [set?, entryOf, Binding.plain, whole?_toDigits d s.baudRate.toNat_lt_size]
    exact congrArg (fun rate => Except.ok { base with baudRate := rate }) UInt32.ofNat_toNat
  | waterfallDepth => rw [set?, entryOf, Binding.plain, word?_toDigits]; rfl
  | repaintInterval => rw [set?, entryOf, Binding.plain, word?_toDigits]; rfl
  | framing => rw [set?, entryOf, Binding.mapping, ofNode?_framingEntries]; rfl
  | waterfallWidth =>
    rw [set?, entryOf, Binding.plain, Field.copy]
    cases s.waterfallWidth with
    | some width =>
      have present := @isPresent?_scalar d .plain _ fun _ =>
        Literal.isNull_toDigits width.toNat
      simp only [Document.optional?, present, word?_toDigits]
      rfl
    | none => rfl
  | newestAt =>
    rw [set?, entryOf, Binding.plain, caseOf?_word d (edgeOf?_edgeWord s.newestAt)]
    rfl
  | intensity =>
    rw [set?, entryOf, Binding.plain, caseOf?_word d (curveOf?_curveWord s.intensity)]
    rfl

end Settings

end SpectrumViewer
