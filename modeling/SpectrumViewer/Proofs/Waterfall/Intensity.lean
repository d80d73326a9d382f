import SpectrumViewer.Proofs.Waterfall.Resampling

set_option autoImplicit false

/-!
The intensities of a row lie between zero and one, on both curves and in every column
(`within_intensityAt`), no column reads outside the frame, and a frame in which nothing is positive
gives a black row.
-/

namespace SpectrumViewer

open BinaryFormat (single)

namespace Binary32

theorem min_floorNat {limit bound : Nat} (x : Binary32) (le : bound ≤ limit) :
    min (x.floorNat limit) bound = x.floorNat bound := by
  cases x with
  | nan => exact Nat.zero_min bound
  | infinite s =>
    cases s
    · exact Nat.min_eq_right le
    · exact Nat.zero_min bound
  | finite s c =>
    cases s
    · exact (Nat.min_assoc _ _ _).trans (congrArg _ (Nat.min_eq_right le))
    · exact Nat.zero_min bound

theorem within_sqrt {x : Binary32} (h : x.Within 0 1) : x.sqrt.Within 0 1 := by
  obtain ⟨v, value, nonneg, small⟩ := h
  rcases nonneg.eq_or_lt with rfl | positive
  · obtain ⟨s, rfl⟩ := eq_zeroOf_of_value? value
    exact ⟨0, value, le_rfl, zero_le_one⟩
  obtain ⟨code, rfl⟩ := Within.eq_finite_false ⟨v, value, le_rfl, le_rfl⟩ positive
  obtain rfl := Option.some.inj value
  have below : single.units code ≤ one := by
    rw [signed_false, Int.cast_natCast, div_le_one one_pos] at small
    exact_mod_cast small
  have nonzero : code.val ≠ 0 := by
    intro zero
    rw [zero] at positive
    norm_num [units_zero] at positive
  set n := single.units code * one
  have scaled : n ≤ one * one := Nat.mul_le_mul_right _ below
  have root : floorSqrt n * floorSqrt n ≤ n := floorSqrtOf_sq_le _ _
  have shape : (finite false code).sqrt = rounded false
      (if floorSqrt n * floorSqrt n = n then 2 * floorSqrt n else 2 * floorSqrt n + 1) 2 := by
    rw [sqrt, if_neg nonzero, if_neg Bool.false_ne_true]
  have half : (if floorSqrt n * floorSqrt n = n then 2 * floorSqrt n else 2 * floorSqrt n + 1) ≤
      one * 2 := by
    split
    · have := Nat.mul_self_le_mul_self_iff.mp (root.trans scaled)
      omega
    · rename_i inexact
      have less := Nat.lt_of_le_of_ne root inexact
      have := Nat.mul_self_lt_mul_self_iff.mp (less.trans_le scaled)
      omega
  rw [shape]
  apply rounds_rounded_false _ two_pos 0 1 representable_zero representable_one
  · exact div_nonneg (Nat.cast_nonneg _) (mul_pos (by norm_num) one_pos).le
  · rw [div_le_one (mul_pos (by norm_num) one_pos), mul_comm]
    exact_mod_cast half

end Binary32

namespace Row

open Binary32
open Spectrum (Nonnegative IsLoudest loudest scaleOf)

/-- What a column shows, where a bin outside the frame would be an error of its own. A position
becomes a word before it is limited to the last bin. -/
def resample? (values : List Binary32) (column width : Nat) : Option Binary32 :=
  if values.length = 0 then some 0
  else if values.length = 1 ∨ width ≤ 1 then values[0]?
  else do
    let last := values.length - 1
    let place := position column width values.length
    let lower := min (place.floorNat (Word.count - 1)) last
    let start ← values[lower]?
    let finish ← values[min (lower + 1) last]?
    return start + (finish - start) * (place - .ofNat lower)

section Column

variable {values : List Binary32} {column width : Nat} {m : ℚ}

/-- No column reads outside the frame. -/
theorem resample?_eq (frame : values.length ≤ Word.largestBlock) :
    resample? values column width = some (resample values.toArray column width) := by
  rw [resample?]
  by_cases none : values.length = 0
  · rw [if_pos none, resample, dif_pos (by simpa using none)]
  by_cases single : values.length = 1 ∨ width ≤ 1
  · rw [if_neg none, if_pos single, resample, dif_neg (by simpa using none),
      if_pos (by simpa using single), List.getElem_toArray, List.getElem?_eq_getElem]
  have words : values.length - 1 ≤ Word.count - 1 :=
    Nat.sub_le_sub_right (frame.trans Word.largestBlock_lt_count.le) 1
  obtain ⟨start, first⟩ : ∃ x, values[(position column width values.length).floorNat
      (values.length - 1)]? = some x := by
    rw [← min_floorNat _ le_rfl]
    exact ⟨_, List.getElem?_eq_getElem (by omega)⟩
  obtain ⟨finish, second⟩ : ∃ x, values[min ((position column width values.length).floorNat
      (values.length - 1) + 1) (values.length - 1)]? = some x :=
    ⟨_, List.getElem?_eq_getElem (by omega)⟩
  rw [if_neg none, if_neg single, resample_eq (by omega) (by omega) rfl
    (by rwa [min_floorNat _ le_rfl]) second]
  simp only [min_floorNat _ words, first, second, Option.bind_eq_bind, Option.bind_some]
  rfl

theorem within_resample (nonnegative : Nonnegative values) (inside : column < width)
    (row : width < Word.count) (frame : values.length ≤ Word.largestBlock)
    (highest : Representable m) (positive : 0 ≤ m)
    (most : ∀ x ∈ values, ∀ q, x.value? = some q → q ≤ m) :
    (resample values.toArray column width).Within 0 m := by
  have bin {x : Binary32} {j : Nat} (found : values[j]? = some x) :
      ∃ q, x.value? = some q ∧ 0 ≤ q ∧ q ≤ m := by
    have among := List.mem_of_getElem? found
    obtain ⟨q, value, nonneg⟩ := nonnegative x among
    exact ⟨q, value, nonneg, most x among q value⟩
  by_cases none : values.length = 0
  · rw [resample, dif_pos (by simpa using none)]
    exact ⟨0, value?_zero, le_rfl, positive⟩
  by_cases single : values.length = 1 ∨ width ≤ 1
  · rw [resample, dif_neg (by simpa using none), if_pos (by simpa using single),
      List.getElem_toArray]
    exact bin (List.getElem?_eq_getElem (Nat.pos_of_ne_zero none))
  have first : (ofNat column).Within 0 (2 ^ 64) :=
    within_ofNat (inside.le.trans row.le) (by decide)
  have high : Representable (2 ^ 64 * 2 ^ 63) := by
    rw [← pow_add]
    exact representable_two_pow (by decide)
  have wide : 2 ≤ width := by omega
  obtain ⟨v, place, nonneg, -⟩ := within_position first wide row frame high
  rcases Nat.lt_or_ge (⌊v⌋₊ + 1) values.length with before | beyond
  · have here : ⌊v⌋₊ < values.length := Nat.lt_of_succ_lt before
    have start := List.getElem?_eq_getElem here
    have finish := List.getElem?_eq_getElem before
    obtain ⟨a, valueS, nonnegS, mostS⟩ := bin start
    obtain ⟨b, valueF, nonnegF, mostF⟩ := bin finish
    rw [resample_eq_of_floor_lt wide place before start finish]
    apply within_interpolated valueS valueF (value?_sub_ofNat_floor place) nonnegS nonnegF
      (sub_nonneg.mpr (Nat.floor_le nonneg)) (sub_lt_iff_lt_add'.mpr (Nat.lt_floor_add_one v))
      representable_zero highest ⟨nonnegS, mostS⟩ ⟨nonnegF, mostF⟩
  · have floor : values.length - 1 ≤ ⌊v⌋₊ := by omega
    have last := List.getElem?_eq_getElem (Nat.sub_one_lt none)
    obtain ⟨a, value, nonneg, most⟩ := bin last
    exact ⟨a, value?_resample_of_le_floor (by omega) wide place floor last value, nonneg, most⟩

end Column

theorem within_apply {curve : Intensity} {x : Binary32} (h : x.Within 0 1) :
    (curve.apply x).Within 0 1 := by
  cases curve with
  | linear => exact h
  | squareRoot =>
    obtain ⟨v, value, nonneg, small⟩ := h
    apply within_sqrt
    exact ⟨max v 0, value?_max value value?_zero, le_max_right v 0, max_le small zero_le_one⟩

theorem value?_apply_zero {curve : Intensity} {x : Binary32} (h : x.value? = some 0) :
    (curve.apply x).value? = some 0 := by
  cases curve with
  | linear => exact h
  | squareRoot =>
    have zero : (x.max 0).value? = some 0 := by rw [value?_max h value?_zero, max_self]
    obtain ⟨s, same⟩ := eq_zeroOf_of_value? zero
    have root : (zeroOf s).sqrt = zeroOf s := rfl
    rw [Intensity.apply, same, root, ← same, zero]

theorem colour_of_zero {x : Binary32} (h : x.value? = some 0) : Ramp.colour x = .black := by
  obtain ⟨s, rfl⟩ := eq_zeroOf_of_value? h
  cases s <;> decide +kernel

theorem colours_of_zero {values : List Binary32} {width : Nat} {curve : Intensity} {s : ℚ}
    (shown : ∀ column < width, (resample values.toArray column width).value? = some 0)
    (scale : (scaleOf (loudest values)).value? = some s) (positive : 0 < s) :
    colours curve values width = List.replicate width .black := by
  rw [colours, List.eq_replicate_iff]
  refine ⟨by simp, fun colour among => ?_⟩
  obtain ⟨column, inside, rfl⟩ := List.mem_map.mp among
  apply colour_of_zero
  apply value?_apply_zero
  exact (rounds_div (shown column (List.mem_range.mp inside)) scale positive.ne').exact_of_eq
    (zero_div s) representable_zero

/-- The intensities that a row is coloured by lie between zero and one, from the smallest magnitudes
to the largest, and the bins that they are read from lie in the frame. A frame in which nothing is
positive gives a black row. -/
theorem within_intensityAt {values : List Binary32} {width : Nat}
    (signs : ∀ x ∈ values, ∃ code, x = .finite false code)
    (frame : values.length ≤ Word.largestBlock) (row : width < Word.count) (curve : Intensity) :
    (∀ column < width,
      resample? values column width = some (resample values.toArray column width) ∧
        (intensityAt curve values.toArray (scaleOf (loudest values)) column width).Within 0 1) ∧
      ((∀ x ∈ values, ¬0 < x) → colours curve values width = List.replicate width .black) := by
  have nonnegative := Spectrum.nonnegative_of_sign signs
  obtain ⟨m, value, loud⟩ := Spectrum.isLoudest_loudest nonnegative
  obtain ⟨s, scale, positive, most⟩ := Spectrum.exists_scaleOf value
  have read {column : Nat} (inside : column < width) :
      (resample values.toArray column width).Within 0 m :=
    within_resample nonnegative inside row frame ⟨_, value⟩ loud.nonneg loud.le
  constructor
  · intro column inside
    refine ⟨resample?_eq frame, within_apply ?_⟩
    apply (read inside).div scale positive representable_zero representable_one
    · rw [zero_mul]
    · rwa [one_mul]
  · intro silent
    refine colours_of_zero (fun column inside => ?_) scale positive
    obtain ⟨v, shown, above, below⟩ := read inside
    rw [loud.eq_zero silent] at below
    rwa [le_antisymm below above] at shown

/-- The smallest magnitude beside the largest one, and silence. -/
theorem within_intensityAt_extremes :
    let extremes : List Binary32 :=
      [.finite false ⟨1, by decide⟩, .finite false ⟨0x7F7FFFFF, by decide⟩]
    let silence : List Binary32 := [zeroOf false, zeroOf false]
    (∀ x ∈ extremes ++ silence, ∃ code, x = .finite false code) ∧ (∀ x ∈ silence, ¬0 < x) ∧
      (∀ column < 7, resample? extremes column 7 = some (resample extremes.toArray column 7) ∧
        (intensityAt .squareRoot extremes.toArray (scaleOf (loudest extremes)) column 7).Within
          0 1) ∧
      colours .squareRoot silence 7 = List.replicate 7 .black := by
  intro extremes silence
  have signs : ∀ x ∈ extremes ++ silence, ∃ code, x = .finite false code := by
    intro x among
    simp only [extremes, silence, List.cons_append, List.nil_append, List.mem_cons,
      List.not_mem_nil, or_false] at among
    rcases among with rfl | rfl | rfl | rfl <;> exact ⟨_, rfl⟩
  have silent : ∀ x ∈ silence, ¬0 < x := by decide
  have loud (x) (among : x ∈ extremes) := signs x (List.mem_append_left _ among)
  have quiet (x) (among : x ∈ silence) := signs x (List.mem_append_right _ among)
  exact ⟨signs, silent, (within_intensityAt loud (by decide) (by decide) .squareRoot).1,
    (within_intensityAt quiet (by decide) (by decide) .squareRoot).2 silent⟩

end Row

end SpectrumViewer
