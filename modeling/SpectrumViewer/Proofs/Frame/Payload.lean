import SpectrumViewer.Frame.Payload
import SpectrumViewer.Proofs.Number.Numeral

set_option autoImplicit false

/-!
Payloads that are written as numerals with commas between them. A numeral holds neither blanks nor
commas, so its place among the tokens of the payload is where it was written, and the payload reads
as the magnitudes of its numerals (`parse_joined`).
-/

namespace SpectrumViewer

namespace Payload

/-- Numerals with commas between them. -/
def joined (numerals : List (List Char)) : List Char := [','].intercalate numerals

theorem joined_append {first second : List (List Char)} (left : first ≠ []) (right : second ≠ []) :
    joined (first ++ second) = joined first ++ ',' :: joined second := by
  induction first with
  | nil => exact absurd rfl left
  | cons numeral rest ih =>
    cases rest with
    | nil =>
      obtain ⟨next, others, rfl⟩ := List.exists_cons_of_ne_nil right
      simp [joined, List.intercalate_cons_cons]
    | cons next others =>
      have later := ih (List.cons_ne_nil _ _)
      simp only [joined, List.cons_append, List.intercalate_cons_cons, List.append_assoc] at later ⊢
      rw [later]

theorem head?_joined {numerals : List (List Char)} (nonempty : numerals ≠ [])
    {p : Char → Prop} (begins : ∀ token ∈ numerals, ∃ c ∈ token.head?, p c) :
    ∃ c ∈ (joined numerals).head?, p c := by
  obtain ⟨token, rest, rfl⟩ := List.exists_cons_of_ne_nil nonempty
  obtain ⟨c, first, holds⟩ := begins token List.mem_cons_self
  refine ⟨c, ?_, holds⟩
  cases rest with
  | nil => simpa [joined] using first
  | cons next rest =>
    rw [joined, List.intercalate_cons_cons, List.append_assoc]
    exact List.mem_head?_append_of_mem_head? first

theorem getLast?_joined {numerals : List (List Char)} (nonempty : numerals ≠ [])
    {p : Char → Prop} (ends : ∀ token ∈ numerals, ∃ c ∈ token.getLast?, p c) :
    ∃ c ∈ (joined numerals).getLast?, p c := by
  obtain ⟨front, token, rfl⟩ := (List.eq_nil_or_concat' numerals).resolve_left nonempty
  obtain ⟨c, last, holds⟩ := ends token (List.mem_append_right _ (List.mem_singleton_self token))
  refine ⟨c, ?_, holds⟩
  by_cases alone : front = []
  · simpa [alone, joined] using last
  · rw [joined_append alone (List.cons_ne_nil _ _), ← List.singleton_append, ← List.append_assoc]
    exact List.mem_getLast?_append_of_mem_getLast? (by simpa [joined] using last)

theorem parse?_ne_none_of_magnitude? {token : List Char} {value : Binary32}
    (h : magnitude? token = some value) : Decimal.parse? token ≠ none := by
  intro none
  rw [magnitude?, none] at h
  cases h

theorem isNumeral_of_mapM {numerals : List (List Char)} {values : List Binary32}
    (h : numerals.mapM magnitude? = some values) :
    ∀ token ∈ numerals, Decimal.parse? token ≠ none := by
  induction numerals generalizing values with
  | nil => exact List.forall_mem_nil _
  | cons token rest ih =>
    rw [List.mapM_cons] at h
    obtain ⟨value, first, h⟩ := Option.bind_eq_some_iff.mp h
    obtain ⟨others, later, -⟩ := Option.bind_eq_some_iff.mp h
    exact List.forall_mem_cons.mpr ⟨parse?_ne_none_of_magnitude? first, ih later⟩

theorem not_blank_of_mem_joined {numerals : List (List Char)}
    (h : ∀ token ∈ numerals, Decimal.parse? token ≠ none) :
    ∀ c ∈ joined numerals, Text.isBlank c = false := by
  intro c membership
  rcases Text.mem_intercalate membership with rfl | ⟨token, among, inside⟩
  · decide
  · exact (Decimal.isNumeral_of_parse? (h token among) c inside).not_blank

theorem tokens_joined {numerals : List (List Char)} (nonempty : numerals ≠ [])
    (h : ∀ token ∈ numerals, Decimal.parse? token ≠ none) :
    tokens (joined numerals) = numerals := by
  have pieces : Text.split ',' (joined numerals) = numerals := by
    apply Text.split_intercalate nonempty
    intro token among comma
    exact (Decimal.isNumeral_of_parse? (h token among) _ comma).ne_comma rfl
  have trimmed : numerals.map Text.trimmed = numerals := by
    refine (List.map_congr_left ?_).trans (List.map_id numerals)
    intro token among
    exact Text.trimmed_of_forall fun c inside =>
      (Decimal.isNumeral_of_parse? (h token among) c inside).not_blank
  have last : numerals.getLast? ≠ some [] := by
    intro empty
    exact Decimal.ne_nil_of_parse? (h [] (List.mem_of_getLast? empty)) rfl
  rw [tokens, pieces, trimmed]
  exact if_neg last

theorem magnitudesFrom_of_mapM {numerals : List (List Char)} {values : List Binary32} (index : Nat)
    (h : numerals.mapM magnitude? = some values) : magnitudesFrom index numerals = .ok values := by
  induction numerals generalizing values index with
  | nil =>
    cases h
    rfl
  | cons token rest ih =>
    rw [List.mapM_cons] at h
    obtain ⟨value, first, h⟩ := Option.bind_eq_some_iff.mp h
    obtain ⟨others, later, h⟩ := Option.bind_eq_some_iff.mp h
    cases h
    rw [magnitudesFrom, first, ih (index + 1) later]
    rfl

/-- A payload reads as the magnitudes of the numerals it is made of. -/
theorem parse_joined {numerals : List (List Char)} {values : List Binary32}
    (nonempty : numerals ≠ []) (h : numerals.mapM magnitude? = some values) :
    parse (String.ofList (joined numerals)) numerals.length = .ok values := by
  have found : tokens (String.ofList (joined numerals)).toList = numerals := by
    rw [String.toList_ofList, tokens_joined nonempty (isNumeral_of_mapM h)]
  rw [parse, found]
  exact (if_pos rfl).trans (magnitudesFrom_of_mapM 0 h)

/-- Every comma of a payload begins a token, except for one at the end. -/
theorem count_comma_le (payload : List Char) : payload.count ',' ≤ (tokens payload).length := by
  rw [tokens]
  split
  · rw [List.length_dropLast, List.length_map, Text.length_split]
    exact Nat.le_refl _
  · rw [List.length_map, Text.length_split]
    exact Nat.le_succ _

theorem parse_ne_ok_of_commas {payload : String} {expected : Nat}
    (many : expected < payload.toList.count ',') (values : List Binary32) :
    parse payload expected ≠ .ok values := by
  intro read
  have commas := count_comma_le payload.toList
  rw [parse] at read
  cases (if_neg (by omega)).symm.trans read

end Payload

end SpectrumViewer
