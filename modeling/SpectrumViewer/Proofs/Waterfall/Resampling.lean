import SpectrumViewer.Proofs.Number.Interpolation
import SpectrumViewer.Proofs.Spectrum.Loudest
import SpectrumViewer.Waterfall.Row

set_option autoImplicit false

/-!
Which bins a column shows. A column whose exact place is a bin shows that bin of every frame exactly
if its rounded position is that bin, or at least that bin where it is the last one
(`resample_eq_bin_iff`). Products of few enough digits are not rounded, so this is so for the first
column, and for all columns of short frames on narrow rows.
-/

namespace SpectrumViewer

namespace Row

open Binary32
open Spectrum (Nonnegative)

section Line

variable {start finish part : Binary32} {a b t : ℚ}

theorem value?_add_sub_mul (hs : start.value? = some a) (hf : finish.value? = some a)
    (hp : part.value? = some t) : (start + (finish - start) * part).value? = some a := by
  have flat : (finish - start).value? = some 0 :=
    (rounds_sub hf hs).exact_of_eq (sub_self a) representable_zero
  have rise : ((finish - start) * part).value? = some 0 :=
    (rounds_mul flat hp).exact_of_eq (zero_mul t) representable_zero
  exact (rounds_add hs rise).exact_of_eq (add_zero a) ⟨start, hs⟩

theorem value?_add_sub_mul_zero (hs : start.value? = some a) (hf : finish.value? = some b)
    (nonnegS : 0 ≤ a) (nonnegF : 0 ≤ b) (hp : part.value? = some 0) :
    (start + (finish - start) * part).value? = some a := by
  obtain ⟨d, difference, -, -⟩ := within_difference hs hf nonnegS nonnegF
  have rise : ((finish - start) * part).value? = some 0 :=
    (rounds_mul difference hp).exact_of_eq (mul_zero d) representable_zero
  exact (rounds_add hs rise).exact_of_eq (add_zero a) ⟨start, hs⟩

theorem value?_zero_add_one_mul (hs : start.value? = some 0) (hf : finish.value? = some 1)
    (hp : part.value? = some t) : (start + (finish - start) * part).value? = some t := by
  have difference : (finish - start).value? = some 1 :=
    (rounds_sub hf hs).exact_of_eq (sub_zero 1) representable_one
  have rise : ((finish - start) * part).value? = some t :=
    (rounds_mul difference hp).exact_of_eq (one_mul t) ⟨part, hp⟩
  exact (rounds_add hs rise).exact_of_eq (zero_add t) ⟨part, hp⟩

end Line

section Reading

variable {values : List Binary32} {column width : Nat} {start finish : Binary32} {v : ℚ}

theorem resample_eq (several : 2 ≤ values.length) (wide : 2 ≤ width) {lower : Nat}
    (place : (position column width values.length).floorNat (values.length - 1) = lower)
    (first : values[min lower (values.length - 1)]? = some start)
    (second : values[min (lower + 1) (values.length - 1)]? = some finish) :
    resample values.toArray column width =
      start + (finish - start) * (position column width values.length - .ofNat lower) := by
  obtain ⟨_, rfl⟩ := List.getElem?_eq_some_iff.mp first
  obtain ⟨_, rfl⟩ := List.getElem?_eq_some_iff.mp second
  subst place
  have many : ¬(values.length = 1 ∨ width ≤ 1) := by omega
  simp only [resample, List.size_toArray, many, show values.length ≠ 0 by omega, if_false,
    dite_false, List.getElem_toArray]

theorem resample_eq_of_floor_lt (wide : 2 ≤ width)
    (place : (position column width values.length).value? = some v)
    (inside : ⌊v⌋₊ + 1 < values.length) (first : values[⌊v⌋₊]? = some start)
    (second : values[⌊v⌋₊ + 1]? = some finish) :
    resample values.toArray column width =
      start + (finish - start) * (position column width values.length - .ofNat ⌊v⌋₊) := by
  have lower : (position column width values.length).floorNat (values.length - 1) = ⌊v⌋₊ := by
    rw [floorNat_eq place, Nat.min_eq_left (by omega)]
  apply resample_eq (by omega) wide lower
  · rw [Nat.min_eq_left (by omega), first]
  · rw [Nat.min_eq_left (by omega), second]

theorem resample_eq_of_le_floor (several : 2 ≤ values.length) (wide : 2 ≤ width)
    (place : (position column width values.length).value? = some v)
    (beyond : values.length - 1 ≤ ⌊v⌋₊) (last : values[values.length - 1]? = some start) :
    resample values.toArray column width = start + (start - start) *
      (position column width values.length - .ofNat (values.length - 1)) := by
  have lower : (position column width values.length).floorNat (values.length - 1) =
      values.length - 1 := by
    rw [floorNat_eq place, Nat.min_eq_right beyond]
  apply resample_eq several wide lower
  · rw [Nat.min_self, last]
  · rw [Nat.min_eq_right (Nat.le_succ _), last]

theorem value?_resample_of_le_floor {a : ℚ} (several : 2 ≤ values.length) (wide : 2 ≤ width)
    (place : (position column width values.length).value? = some v)
    (beyond : values.length - 1 ≤ ⌊v⌋₊) (last : values[values.length - 1]? = some start)
    (value : start.value? = some a) :
    (resample values.toArray column width).value? = some a := by
  have reached : ((values.length - 1 : Nat) : ℚ) ≤ v :=
    (Nat.le_floor_iff' (by omega)).mp beyond
  have count : (ofNat (values.length - 1)).Within 0 v :=
    rounds_ofNat _ 0 v representable_zero ⟨_, place⟩ (Nat.cast_nonneg _) reached
  have placed : (position column width values.length).Within v v := ⟨v, place, le_rfl, le_rfl⟩
  obtain ⟨t, part, -, -⟩ :=
    placed.sub count representable_zero ⟨_, place⟩ (sub_self v).ge (sub_zero v).le
  rw [resample_eq_of_le_floor several wide place beyond last]
  exact value?_add_sub_mul value value part

theorem exists_value?_position (several : 2 ≤ values.length) (wide : 2 ≤ width)
    (finite : (resample values.toArray column width).isFinite = true) :
    ∃ v, (position column width values.length).value? = some v := by
  have within {n : Nat} : min n (values.length - 1) < values.length := by omega
  rw [resample_eq several wide rfl (List.getElem?_eq_getElem within)
    (List.getElem?_eq_getElem within)] at finite
  exact isFinite_iff.mp (isFinite_of_sub (isFinite_of_mul (isFinite_of_add finite).2).2).1

end Reading

/-- The rounded position of a column is the bin, or no less than the bin where it is the last
one. -/
def FallsOn (column width bins k : Nat) : Prop :=
  ∃ v, (position column width bins).value? = some v ∧ (v = k ∨ k = bins - 1 ∧ k ≤ v)

/-- The column shows the bin of every frame of so many bins. -/
def Shows (column width bins k : Nat) : Prop :=
  ∀ values : List Binary32, values.length = bins → Nonnegative values →
    ∃ x, values[k]? = some x ∧ (resample values.toArray column width).value? = x.value?

/-- A frame with a single one. -/
def impulse (bins i : Nat) : List Binary32 :=
  (List.range bins).map fun j => if j = i then 1 else 0

theorem value?_impulse {bins i j : Nat} (inside : j < bins) :
    ∃ x, (impulse bins i)[j]? = some x ∧ x.value? = some (if j = i then 1 else 0) := by
  refine ⟨if j = i then 1 else 0, by simp [impulse, inside], ?_⟩
  split
  · exact value?_one
  · exact value?_zero

theorem nonnegative_impulse (bins i : Nat) : Nonnegative (impulse bins i) := by
  intro x among
  obtain ⟨j, found⟩ := List.getElem?_of_mem among
  have inside := (List.getElem?_eq_some_iff.mp found).1
  simp only [impulse, List.length_map, List.length_range] at inside
  obtain ⟨y, same, value⟩ := value?_impulse (i := i) inside
  obtain rfl : x = y := Option.some.inj (found.symm.trans same)
  refine ⟨_, value, ?_⟩
  split <;> norm_num

@[simp] theorem length_impulse (bins i : Nat) : (impulse bins i).length = bins := by
  simp [impulse]

section Falls

variable {column width bins i k : Nat} {v : ℚ} (wide : 2 ≤ width)
  (place : (position column width bins).value? = some v)

include wide place

theorem value?_resample_impulse (inside : ⌊v⌋₊ + 1 < bins) (apart : ⌊v⌋₊ ≠ i) :
    (resample (impulse bins i).toArray column width).value? =
      some (if ⌊v⌋₊ + 1 = i then v - ⌊v⌋₊ else 0) := by
  obtain ⟨start, first, valueS⟩ := value?_impulse (i := i) (Nat.lt_of_succ_lt inside)
  obtain ⟨finish, second, valueF⟩ := value?_impulse (i := i) inside
  rw [if_neg apart] at valueS
  have length := length_impulse bins i
  generalize impulse bins i = frame at first second length ⊢
  subst length
  rw [resample_eq_of_floor_lt wide place inside first second]
  have part := value?_sub_ofNat_floor place
  by_cases next : ⌊v⌋₊ + 1 = i
  · rw [if_pos next] at valueF ⊢
    exact value?_zero_add_one_mul valueS valueF part
  · rw [if_neg next] at valueF ⊢
    exact value?_add_sub_mul valueS valueF part

theorem value?_resample_impulse_of_le (several : 2 ≤ bins) (beyond : bins - 1 ≤ ⌊v⌋₊)
    (apart : bins - 1 ≠ i) :
    (resample (impulse bins i).toArray column width).value? = some 0 := by
  obtain ⟨start, last, value⟩ := value?_impulse (i := i) (Nat.sub_one_lt_of_lt several)
  rw [if_neg apart] at value
  have length := length_impulse bins i
  generalize impulse bins i = frame at last length ⊢
  subst length
  exact value?_resample_of_le_floor several wide place beyond last value

end Falls

section Exact

variable {column width bins k : Nat} (several : 2 ≤ bins) (wide : 2 ≤ width) (inside : k < bins)

include several wide inside

/-- An impulse shows which bins a column reads, and how much of them. -/
theorem Shows.fallsOn (shows : Shows column width bins k) : FallsOn column width bins k := by
  have read (i : Nat) : (resample (impulse bins i).toArray column width).value? =
      some (if k = i then 1 else 0) := by
    obtain ⟨x, found, same⟩ := shows (impulse bins i) (length_impulse bins i)
      (nonnegative_impulse bins i)
    obtain ⟨y, found', value⟩ := value?_impulse (i := i) inside
    obtain rfl : x = y := Option.some.inj (found.symm.trans found')
    rw [same, value]
  obtain ⟨v, place⟩ : ∃ v, (position column width bins).value? = some v := by
    have finite := isFinite_of_value? (read k)
    have placed := exists_value?_position (by rwa [length_impulse]) wide finite
    rwa [length_impulse] at placed
  refine ⟨v, place, ?_⟩
  rcases Nat.lt_or_ge (⌊v⌋₊ + 1) bins with before | beyond
  · left
    by_cases here : ⌊v⌋₊ = k
    · have seen := value?_resample_impulse wide place before (Nat.ne_of_lt (Nat.lt_succ_self _))
      rw [read, if_neg (by omega), if_pos rfl] at seen
      have none : (0 : ℚ) = v - ⌊v⌋₊ := Option.some.inj seen
      rw [← here]
      linarith
    · have seen := value?_resample_impulse wide place before here
      rw [read, if_pos rfl] at seen
      have whole : (1 : ℚ) = if ⌊v⌋₊ + 1 = k then v - ⌊v⌋₊ else 0 := Option.some.inj seen
      have below := Nat.lt_floor_add_one v
      split at whole <;> linarith
  · right
    have last : k = bins - 1 := by
      by_contra apart
      have seen := value?_resample_impulse_of_le wide place several (by omega) (Ne.symm apart)
      rw [read, if_pos rfl] at seen
      exact one_ne_zero (Option.some.inj seen)
    refine ⟨last, ?_⟩
    rw [← Nat.le_floor_iff' (by omega)]
    omega

theorem FallsOn.shows (falls : FallsOn column width bins k) : Shows column width bins k := by
  rintro values rfl nonnegative
  obtain ⟨v, place, on⟩ := falls
  have value (j : Nat) (h : j < values.length) :
      ∃ x a, values[j]? = some x ∧ x.value? = some a ∧ 0 ≤ a := by
    obtain ⟨a, value, nonneg⟩ := nonnegative values[j] (List.getElem_mem h)
    exact ⟨_, a, List.getElem?_eq_getElem h, value, nonneg⟩
  obtain ⟨start, a, first, valueS, nonnegS⟩ := value k inside
  refine ⟨start, first, ?_⟩
  rw [valueS]
  have reached : (k : ℚ) ≤ v := on.elim (fun same => same.ge) fun last => last.2
  have floor : k ≤ ⌊v⌋₊ := (Nat.le_floor_iff ((Nat.cast_nonneg k).trans reached)).mpr reached
  rcases Nat.lt_or_ge (k + 1) values.length with before | beyond
  · have same : v = k := on.resolve_right fun last => by omega
    obtain ⟨finish, b, second, valueF, nonnegF⟩ := value (k + 1) before
    have here : ⌊v⌋₊ = k := by rw [same, Nat.floor_natCast]
    have part := value?_sub_ofNat_floor place
    rw [← here] at first second before
    rw [resample_eq_of_floor_lt wide place before first second]
    rw [here, ← same, sub_self, ← here] at part
    exact value?_add_sub_mul_zero valueS valueF nonnegS nonnegF part
  · obtain rfl : k = values.length - 1 := by omega
    exact value?_resample_of_le_floor several wide place floor first valueS

end Exact

theorem fallsOn_of_representable {column width bins k : Nat} (wide : 2 ≤ width)
    (inside : column < width) (on : column * (bins - 1) = k * (width - 1))
    (bounded : k ≤ bins - 1) (few : bins - 1 ≤ 2 ^ 24) (narrow : width - 1 ≤ 2 ^ 24)
    (product : Representable (column * (bins - 1) : Nat)) : FallsOn column width bins k := by
  refine ⟨k, ?_, Or.inl rfl⟩
  have first := value?_ofNat (representable_natCast (n := column) (by omega))
  have last := value?_ofNat (representable_natCast few)
  have steps := value?_ofNat (representable_natCast narrow)
  have nonzero : ((width - 1 : Nat) : ℚ) ≠ 0 := by
    rw [Nat.cast_ne_zero]
    omega
  have scaled : (ofNat column * ofNat (bins - 1)).value? = some ((k : ℚ) * (width - 1 : Nat)) := by
    have exact := (rounds_mul first last).exact_of_eq (Nat.cast_mul _ _).symm product
    rwa [on, Nat.cast_mul] at exact
  exact (rounds_div scaled steps nonzero).exact_of_eq (mul_div_cancel_right₀ _ nonzero)
    (representable_natCast (bounded.trans few))

/-- Sizes in memory are too small for a position to overflow. -/
theorem within_position {column width bins : Nat} {c : ℚ} (first : (ofNat column).Within 0 c)
    (wide : 2 ≤ width) (row : width < Word.count) (frame : bins ≤ Word.largestBlock)
    (high : Representable (c * 2 ^ 63)) : (position column width bins).Within 0 (c * 2 ^ 63) := by
  have last := within_size ((Nat.sub_le bins 1).trans frame)
  have product := first.mul last le_rfl le_rfl representable_zero high (zero_mul _).ge le_rfl
  obtain ⟨q, value, above, -⟩ : (ofNat (width - 1)).Within 1 (2 ^ 64) :=
    within_ofNat_of_pos (by omega) ((Nat.sub_le width 1).trans row.le) (by decide)
  have nonneg : 0 ≤ c * 2 ^ 63 := by
    obtain ⟨v, -, below, above⟩ := product
    exact below.trans above
  apply product.div value (zero_lt_one.trans_le above) representable_zero high (zero_mul _).le
  exact le_mul_of_one_le_right nonneg above

theorem fallsOn_first {width bins : Nat} (wide : 2 ≤ width) (row : width < Word.count)
    (frame : bins ≤ Word.largestBlock) : FallsOn 0 width bins 0 := by
  have first : (ofNat 0).Within 0 0 := ⟨0, value?_zero, le_rfl, le_rfl⟩
  have zero : Representable (0 * 2 ^ 63) := by
    rw [zero_mul]
    exact representable_zero
  obtain ⟨v, place, above, below⟩ := within_position first wide row frame zero
  rw [zero_mul] at below
  exact ⟨v, place, Or.inl (by rw [Nat.cast_zero]; exact le_antisymm below above)⟩

/-- A column whose exact place is a bin shows this bin of every frame exactly if its rounded position
is the bin, or is no less than the bin where it is the last one. In the first column it is, and it is
where the number of columns, that of bins and the product before the division are not rounded. A
frame of few bins is shown as it is on as many columns. -/
theorem resample_eq_bin_iff {column width bins k : Nat} (several : 2 ≤ bins) (wide : 2 ≤ width)
    (inside : column < width) (on : column * (bins - 1) = k * (width - 1)) :
    (Shows column width bins k ↔ FallsOn column width bins k) ∧
      (column = 0 → width < Word.count → bins ≤ Word.largestBlock →
        Shows column width bins k) ∧
      (bins - 1 ≤ 2 ^ 24 → width - 1 ≤ 2 ^ 24 → Representable (column * (bins - 1) : Nat) →
        Shows column width bins k) ∧
      (width = bins → bins ≤ 4097 → Shows column width bins k) := by
  have bounded : k ≤ bins - 1 := by
    have product : k * (width - 1) ≤ (bins - 1) * (width - 1) := by
      rw [← on, Nat.mul_comm (bins - 1)]
      exact Nat.mul_le_mul_right _ (by omega)
    exact Nat.le_of_mul_le_mul_right product (by omega)
  have within : k < bins := by omega
  have shows (falls : FallsOn column width bins k) := falls.shows several wide within
  refine ⟨⟨Shows.fallsOn several wide within, shows⟩, ?_, ?_, ?_⟩
  · rintro rfl row frame
    rw [Nat.zero_mul] at on
    obtain rfl : k = 0 := (Nat.mul_eq_zero.mp on.symm).resolve_right (by omega)
    exact shows (fallsOn_first wide row frame)
  · intro few narrow product
    exact shows (fallsOn_of_representable wide inside on bounded few narrow product)
  · rintro rfl short
    have product : column * (width - 1) ≤ 2 ^ 12 * 2 ^ 12 :=
      Nat.mul_le_mul (by omega) (by omega)
    exact shows (fallsOn_of_representable wide inside on bounded (by omega) (by omega)
      (representable_natCast product))

/-- Bins up to `4097` on as many columns are shown as they are. -/
theorem resample_eq_bin_iff_4097 :
    4095 * (4097 - 1) = 4095 * (4097 - 1) ∧ FallsOn 4095 4097 4097 4095 ∧
      Shows 4095 4097 4097 4095 := by
  obtain ⟨exact, -, -, few⟩ :=
    @resample_eq_bin_iff 4095 4097 4097 4095 (by decide) (by decide) (by decide) rfl
  have shows := few rfl le_rfl
  exact ⟨rfl, exact.mp shows, shows⟩

/-- The last column can miss the last bin, and a column of as many as there are bins its own. -/
theorem not_shows_rounded :
    5592407 * (4 - 1) = 3 * (5592408 - 1) ∧
      (resample #[0, 0, 0, 1] 5592407 5592408).toBits = 0x3F7FFFFC ∧
      ¬Shows 5592407 5592408 4 3 ∧ ¬Shows 4095 4100 4100 4095 := by
  have last : (position 5592407 5592408 4).value? = some (12582911 / 4194304) := by decide +kernel
  have own : (position 4095 4100 4100).value? = some (16773119 / 4096) := by decide +kernel
  refine ⟨rfl, by decide +kernel, fun shows => ?_, fun shows => ?_⟩
  · obtain ⟨v, place, on⟩ := shows.fallsOn (by decide) (by decide) (by decide)
    obtain rfl := Option.some.inj (last.symm.trans place)
    norm_num at on
  · obtain ⟨v, place, on⟩ := shows.fallsOn (by decide) (by decide) (by decide)
    obtain rfl := Option.some.inj (own.symm.trans place)
    norm_num at on

end Row

end SpectrumViewer
