import SpectrumViewer.Proofs.Frame.Payload
import SpectrumViewer.Proofs.Number.Reading

set_option autoImplicit false

/-!
What payloads are read as. A token stands for the absolute value of the finite value nearest to the
number that it writes, and a payload is read as the magnitudes of its segments, or refused for their
number or else for the first of them that stands for nothing (`parse_eq_iff`).
-/

namespace SpectrumViewer

namespace Payload

/-- The segments of a payload: its pieces between commas, without blanks around them, and without
one empty piece at the end. -/
def segments (payload : String) : List (List Char) :=
  let pieces := (payload.toList.splitOn ',').map Text.trimmed
  if pieces.getLast? = some [] then pieces.dropLast else pieces

/-- The token is a numeral, and the value nearest to its number is this one up to the sign. -/
inductive Stands : List Char → Binary32 → Prop where
  | intro {token : List Char} {d : Decimal} {x : Binary32}
      {code : Fin BinaryFormat.single.infinityCode} : Decimal.Written token d →
      Binary32.Nearest d.value x → x.abs = .finite false code → Stands token (.finite false code)

/-- What becomes of segments where so many values are expected. -/
inductive Reads (found : List (List Char)) (expected : Nat) :
    Except PayloadError (List Binary32) → Prop where
  | count : found.length ≠ expected → Reads found expected (.error (.count expected found.length))
  | token {front behind : List (List Char)} {token : List Char} : found.length = expected →
      found = front ++ token :: behind → (∀ earlier ∈ front, ∃ value, Stands earlier value) →
      (¬∃ value, Stands token value) →
      Reads found expected (.error (.token front.length (String.ofList token)))
  | values {values : List Binary32} : found.length = expected → List.Forall₂ Stands found values →
      Reads found expected (.ok values)

theorem magnitude?_eq_some_iff {token : List Char} {value : Binary32} :
    magnitude? token = some value ↔ Stands token value := by
  constructor
  · intro h
    obtain ⟨d, parsed, h⟩ := Option.bind_eq_some_iff.mp h
    have written := Decimal.parse?_eq_some_iff.mp parsed
    have nearest := d.toBinary32_nearest
    cases read : d.toBinary32 with
    | nan =>
      rw [read] at h
      cases h
    | infinite negative =>
      rw [read] at h
      cases h
    | finite negative code =>
      rw [read] at h nearest
      cases h
      exact .intro written nearest rfl
  · rintro ⟨written, nearest, magnitude⟩
    rename_i d x code
    have same : d.toBinary32.abs = .finite false code :=
      (d.toBinary32_nearest.abs_eq nearest).trans magnitude
    have finite : d.toBinary32.isFinite = true := by
      rw [← Binary32.isFinite_abs, same]
      rfl
    rw [magnitude?, Decimal.parse?_eq_some_iff.mpr written, Option.bind_some]
    exact (if_pos finite).trans (congrArg some same)

theorem magnitude?_eq_none_iff {token : List Char} :
    magnitude? token = none ↔ ¬∃ value, Stands token value := by
  rw [Option.eq_none_iff_forall_ne_some, not_exists]
  exact forall_congr' fun value => not_congr magnitude?_eq_some_iff

/-- A token stands for a value exactly if it is a numeral below the numbers that become
infinite. -/
theorem exists_stands_iff {token : List Char} :
    (∃ value, Stands token value) ↔
      ∃ d, Decimal.Written token d ∧ |d.value| < 2 ^ 128 - 2 ^ 103 := by
  constructor
  · rintro ⟨value, ⟨written, nearest, magnitude⟩⟩
    refine ⟨_, written, nearest.isFinite_iff.mp ?_⟩
    rw [← Binary32.isFinite_abs, magnitude]
    rfl
  · rintro ⟨d, written, small⟩
    have nearest := d.toBinary32_nearest
    have finite := nearest.isFinite_iff.mpr small
    cases read : d.toBinary32 with
    | nan =>
      rw [read] at finite
      cases finite
    | infinite negative =>
      rw [read] at finite
      cases finite
    | finite negative code =>
      rw [read] at nearest
      exact ⟨_, .intro written nearest rfl⟩

theorem magnitudesFrom_eq_ok_iff {index : Nat} {found : List (List Char)}
    {values : List Binary32} :
    magnitudesFrom index found = .ok values ↔ List.Forall₂ Stands found values := by
  induction found generalizing index values with
  | nil => simp [magnitudesFrom, eq_comm]
  | cons token rest ih =>
    rw [magnitudesFrom, List.forall₂_cons_left_iff]
    cases read : magnitude? token with
    | none =>
      have unfit := magnitude?_eq_none_iff.mp read
      simp only [reduceCtorEq, false_iff, not_exists]
      rintro value others ⟨stands, -⟩
      exact unfit ⟨value, stands⟩
    | some value =>
      simp only [← magnitude?_eq_some_iff, read, ← @ih (index + 1)]
      cases magnitudesFrom (index + 1) rest <;> simp [Except.map, eq_comm]

theorem magnitudesFrom_eq_error_iff {index : Nat} {found : List (List Char)}
    {error : PayloadError} :
    magnitudesFrom index found = .error error ↔ ∃ front token behind,
      found = front ++ token :: behind ∧ (∀ earlier ∈ front, ∃ value, Stands earlier value) ∧
      (¬∃ value, Stands token value) ∧
      error = .token (index + front.length) (String.ofList token) := by
  induction found generalizing index with
  | nil => simp [magnitudesFrom]
  | cons token rest ih =>
    rw [magnitudesFrom]
    cases read : magnitude? token with
    | none =>
      have unfit := magnitude?_eq_none_iff.mp read
      constructor
      · intro h
        cases h
        exact ⟨[], token, rest, rfl, List.forall_mem_nil _, unfit, rfl⟩
      · rintro ⟨front, other, behind, split, fit, -, rfl⟩
        cases front with
        | nil =>
          cases split
          rfl
        | cons first front =>
          cases split
          exact absurd (fit token List.mem_cons_self) unfit
    | some value =>
      have stands := magnitude?_eq_some_iff.mp read
      have later : (magnitudesFrom (index + 1) rest).map (value :: ·) = .error error ↔
          magnitudesFrom (index + 1) rest = .error error := by
        cases magnitudesFrom (index + 1) rest <;> simp [Except.map]
      rw [later, ih]
      constructor
      · rintro ⟨front, other, behind, rfl, fit, unfit, rfl⟩
        refine ⟨token :: front, other, behind, rfl, ?_, unfit, ?_⟩
        · exact List.forall_mem_cons.mpr ⟨⟨value, stands⟩, fit⟩
        · rw [List.length_cons, Nat.add_assoc, Nat.add_comm 1]
      · rintro ⟨front, other, behind, split, fit, unfit, rfl⟩
        cases front with
        | nil =>
          cases split
          exact absurd ⟨value, stands⟩ unfit
        | cons first front =>
          cases split
          refine ⟨front, other, behind, rfl, (List.forall_mem_cons.mp fit).2, unfit, ?_⟩
          rw [List.length_cons, Nat.add_assoc, Nat.add_comm 1]

theorem tokens_toList (payload : String) : tokens payload.toList = segments payload := by
  rw [tokens, segments, Text.split_eq_splitOn]

/-- Reading a payload has exactly the result that its segments demand. -/
theorem parse_eq_iff (payload : String) (expected : Nat)
    (result : Except PayloadError (List Binary32)) :
    parse payload expected = result ↔ Reads (segments payload) expected result := by
  rw [parse, tokens_toList]
  by_cases number : (segments payload).length = expected
  · rw [if_pos number]
    cases result with
    | ok values =>
      rw [magnitudesFrom_eq_ok_iff]
      constructor
      · exact .values number
      · rintro ⟨⟩
        assumption
    | error error =>
      rw [magnitudesFrom_eq_error_iff]
      constructor
      · rintro ⟨front, token, behind, split, fit, unfit, rfl⟩
        rw [Nat.zero_add]
        exact .token number split fit unfit
      · intro h
        cases h with
        | count wrong => exact absurd number wrong
        | token _ split fit unfit =>
          exact ⟨_, _, _, split, fit, unfit, by rw [Nat.zero_add]⟩
  · rw [if_neg number]
    constructor
    · rintro rfl
      exact .count number
    · intro h
      cases h with
      | count => rfl
      | token right => exact absurd right number
      | values right => exact absurd right number

end Payload

end SpectrumViewer
