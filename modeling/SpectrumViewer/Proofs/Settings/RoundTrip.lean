import SpectrumViewer.Proofs.Settings.Entries
import SpectrumViewer.Proofs.Text.Utf8
import SpectrumViewer.Settings.Store

set_option autoImplicit false

/-!
Saved settings are loaded again. A document of some fields of accepted settings, in any order,
gives the standard settings with these fields taken over, and the whole of what was saved gives the
settings back (`loadOrCreate_saved`).
-/

namespace SpectrumViewer

open Yaml

namespace Settings

theorem named?_name (field : Field) : Field.named? field.name = some field := by
  cases field <;> decide

theorem name_injective : Function.Injective Field.name := fun a b same =>
  Option.some.inj (by rw [← named?_name a, ← named?_name b, same])

theorem checkDistinct_of_nodup {names : List String} {fields : List (String × Node)}
    (distinct : (fields.map Prod.fst).Nodup) : Document.checkDistinct names fields = .ok () := by
  have none : names.find? (fun name => decide (1 < (fields.map Prod.fst).count name)) = none := by
    refine List.find?_eq_none.mpr fun name _ => ?_
    have once := List.nodup_iff_count_le_one.mp distinct name
    simpa using once
  rw [Document.checkDistinct, none]

theorem foldlM_set? (d : Document) {s : Settings} (whole : s.IsWhole) (fields : List Field)
    (base : Settings) :
    (fields.map fun field => (field.name, (s.entryOf field).node)).foldlM
        (fun t (name, n) => match Field.named? name with
          | some field => set? d t n field
          | none => pure t) base =
      .ok (fields.foldl (Field.copy s) base) := by
  induction fields generalizing base with
  | nil => rfl
  | cons field fields ih =>
    rw [List.map_cons, List.foldlM_cons]
    dsimp only
    rw [named?_name]
    dsimp only
    rw [set?_entryOf d whole, List.foldl_cons]
    exact ih (field.copy s base)

theorem ofText?_linesOf {s : Settings} (whole : s.IsWhole) {fields : List Field}
    (nonempty : fields ≠ []) (distinct : fields.Nodup) :
    ofText? (s.linesOf fields) = .ok (fields.foldl (Field.copy s) standard) := by
  let d : Document := ⟨.mapping none ((fields.map s.entryOf).map Binding.pair), []⟩
  have written : ∀ e ∈ fields.map s.entryOf, e.IsWritten 0 :=
    List.forall_mem_map.mpr fun field _ => isWritten_entryOf whole field
  have document : Document.ofText? (s.linesOf fields) = .ok d := by
    rw [linesOf_eq]
    exact Document.ofText?_entries (by simpa using nonempty) written
  have read : d.fields? d.root =
      .ok (fields.map fun field => (field.name, (s.entryOf field).node)) := by
    rw [d.fields?_entries, List.map_map]
    exact congrArg Except.ok (List.map_congr_left fun field _ => by
      rw [Function.comp_apply, name_entryOf])
  have once : Document.checkDistinct (Field.all.map Field.name)
      (fields.map fun field => (field.name, (s.entryOf field).node)) = .ok () := by
    refine checkDistinct_of_nodup ?_
    rw [List.map_map]
    exact distinct.map name_injective
  rw [ofText?, document]
  simp only [bind, Except.bind, ofDocument?, read, once]
  exact foldlM_set? d whole fields standard

/-- Whether settings are accepted is decided field by field. -/
theorem accepted_iff_fields (s : Settings) :
    s.Accepted ↔ (2 ≤ s.fftSize.toNat ∧ s.fftSize.toNat % 2 = 0) ∧ 0 < s.sampleRate ∧
      s.baudRate ≠ 0 ∧ s.waterfallDepth ≠ 0 ∧ s.waterfallWidth ≠ some 0 ∧
      (isBlankText s.framing.opening = false ∧ isBlankText s.framing.closing = false) ∧
        s.framing.opening ≠ s.framing.closing := by
  have columns (size : 2 ≤ s.fftSize.toNat) :
      s.waterfallColumns ≠ 0 ↔ s.waterfallWidth ≠ some 0 := by
    unfold waterfallColumns
    cases s.waterfallWidth with
    | none =>
      have bins : s.binCount ≠ 0 := by
        unfold binCount
        omega
      simpa using bins
    | some width => simp [← UInt64.toNat_inj]
  rw [accepted_iff]
  constructor
  · rintro ⟨size, rate, baud, ⟨depth, width⟩, framing⟩
    exact ⟨size, rate, baud, depth, (columns size.1).mp width, framing⟩
  · rintro ⟨size, rate, baud, depth, width, framing⟩
    exact ⟨size, rate, baud, ⟨depth, (columns size.1).mpr width⟩, framing⟩

theorem Accepted.copy {source s : Settings} (first : source.Accepted) (second : s.Accepted)
    (field : Field) : (field.copy source s).Accepted := by
  rw [accepted_iff_fields] at first second ⊢
  obtain ⟨size, rate, baud, depth, width, blank, marks⟩ := first
  obtain ⟨size', rate', baud', depth', width', blank', marks'⟩ := second
  cases field with
  | fftSize => exact ⟨size, rate', baud', depth', width', blank', marks'⟩
  | sampleRate => exact ⟨size', rate, baud', depth', width', blank', marks'⟩
  | baudRate => exact ⟨size', rate', baud, depth', width', blank', marks'⟩
  | waterfallDepth => exact ⟨size', rate', baud', depth, width', blank', marks'⟩
  | waterfallWidth => exact ⟨size', rate', baud', depth', width, blank', marks'⟩
  | framing => exact ⟨size', rate', baud', depth', width', blank, marks⟩
  | _ => exact ⟨size', rate', baud', depth', width', blank', marks'⟩

theorem Accepted.foldl_copy {source s : Settings} (first : source.Accepted) (second : s.Accepted)
    (fields : List Field) : (fields.foldl (Field.copy source) s).Accepted := by
  induction fields generalizing s with
  | nil => exact second
  | cons field fields ih => exact ih (first.copy second field)

theorem foldl_copy_all (source s : Settings) : Field.all.foldl (Field.copy source) s = source := by
  simp only [Field.all, List.foldl_cons, List.foldl_nil, Field.copy]

theorem value_checked {s : Settings} (accepted : s.Accepted) : s.checked.value = .ok s := by
  rw [checked, Logged.value_bind, s.value_check.mpr accepted]
  rfl

theorem value_loadOrCreate {octets : List UInt8} {path : String} {s : Settings}
    (read : read? path (.file octets) = .ok s) (accepted : s.Accepted) :
    (loadOrCreate path (.file octets)).value = ⟨.ok s, none⟩ := by
  have loaded : (load path (.file octets)).value = .ok s := by
    rw [load, read]
    exact value_checked accepted
  have taken : (Place.file octets).isTaken = true := rfl
  rw [loadOrCreate, if_pos taken, Logged.value_bind, loaded, Logged.value_pure]

theorem loadOrCreate_linesOf {s : Settings} (accepted : s.Accepted) (whole : s.IsWhole)
    {fields : List Field} (nonempty : fields ≠ []) (distinct : fields.Nodup) (path : String) :
    (loadOrCreate path (.file (Utf8.encode (String.ofList (s.linesOf fields))))).value =
      ⟨.ok (fields.foldl (Field.copy s) standard), none⟩ := by
  have read : read? path (.file (Utf8.encode (String.ofList (s.linesOf fields)))) =
      .ok (fields.foldl (Field.copy s) standard) := by
    rw [read?]
    simp only [Place.read?, Utf8.strict?_encode, ofText?_linesOf whole nonempty distinct]
    rfl
  have standardAccepted : standard.Accepted := by decide
  exact value_loadOrCreate read (accepted.foldl_copy standardAccepted fields)

/-- Saved settings are loaded again: whatever fields of them stand in a file, in whatever order,
are taken over into the standard settings, and what `save` wrote gives the settings back. -/
theorem loadOrCreate_saved {s : Settings} (accepted : s.Accepted) (whole : s.IsWhole)
    (path : String) :
    (∀ fields : List Field, fields ≠ [] → fields.Nodup →
      (loadOrCreate path (.file (Utf8.encode (String.ofList (s.linesOf fields))))).value =
        ⟨.ok (fields.foldl (Field.copy s) standard), none⟩) ∧
    ∀ place : Place, place.write? = .ok () → ∃ text, (s.save path place).value = .ok text ∧
      (loadOrCreate path (.file (Utf8.encode text))).value = ⟨.ok s, none⟩ := by
  have taken : ∀ fields : List Field, fields ≠ [] → fields.Nodup →
      (loadOrCreate path (.file (Utf8.encode (String.ofList (s.linesOf fields))))).value =
        ⟨.ok (fields.foldl (Field.copy s) standard), none⟩ := fun fields nonempty distinct =>
    loadOrCreate_linesOf accepted whole nonempty distinct path
  refine ⟨taken, fun place writes => ⟨s.text, ?_, ?_⟩⟩
  · rw [save, writes]
    rfl
  · rw [text, taken Field.all (by decide) (by decide), foldl_copy_all]

/-- Marks that look like something else, and a lead that is empty. -/
theorem loadOrCreate_saved_marks :
    (loadOrCreate "viewer.yaml" (.file (Utf8.encode (String.ofList (linesOf
      { standard with framing := ⟨"null", " 1e3\n", some ""⟩ } [.framing]))))).value =
      ⟨.ok { standard with framing := ⟨"null", " 1e3\n", some ""⟩ }, none⟩ := by
  have whole : IsWhole { standard with framing := ⟨"null", " 1e3\n", some ""⟩ } :=
    ⟨isWhole_standard.sampleRate, isWhole_standard.windowWidth, isWhole_standard.windowHeight⟩
  exact (loadOrCreate_saved (by decide) whole "viewer.yaml").1 [.framing] (by decide) (by decide)

end Settings

end SpectrumViewer
