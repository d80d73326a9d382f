import Mathlib.Order.Bounds.Basic
import SpectrumViewer.Proofs.Number.Monotone
import SpectrumViewer.Spectrum.Chart

set_option autoImplicit false

/-!
The loudest magnitude of a frame and the bin of its peak are searched for apart, from different
starts and by different comparisons. They agree on every frame of values without a minus, infinities
among them: the bin is the first of those that hold the loudest magnitude, so the two lines that a
chart has for them describe one bin (`describes_peak`).
-/

namespace SpectrumViewer

open BinaryFormat (single)
open Binary32

namespace Spectrum

/-- The first of the loudest bins and its magnitude. An empty frame counts as one silent bin. -/
inductive IsPeak : List Binary32 → Nat → Binary32 → Prop where
  | empty : IsPeak [] 0 0
  | first {values : List Binary32} {bin : Nat} {top : Binary32} :
      IsLeast {i | values[i]? = some top} bin → (∀ x ∈ values, x ≤ top) → IsPeak values bin top

variable {values values' : List Binary32} {bin bin' : Nat} {top top' x : Binary32}

theorem isPeak_nil_iff : IsPeak [] bin top ↔ bin = 0 ∧ top = 0 := by
  constructor
  · intro peak
    cases peak with
    | empty => exact ⟨rfl, rfl⟩
    | first least => cases least.1
  · rintro ⟨rfl, rfl⟩
    exact .empty

theorem isPeak_iff (bins : values ≠ []) :
    IsPeak values bin top ↔ IsLeast {i | values[i]? = some top} bin ∧ ∀ x ∈ values, x ≤ top := by
  constructor
  · intro peak
    cases peak with
    | empty => exact absurd rfl bins
    | first least most => exact ⟨least, most⟩
  · rintro ⟨least, most⟩
    exact .first least most

theorem IsPeak.mem (bins : values ≠ []) (peak : IsPeak values bin top) : top ∈ values :=
  List.mem_of_getElem? ((isPeak_iff bins).mp peak).1.1

/-- The magnitude of the peak only depends on which magnitudes there are. -/
theorem IsPeak.top_eq_of_perm (unsigned : ∀ y ∈ values, y.Unsigned) (peak : IsPeak values bin top)
    (peak' : IsPeak values' bin' top') (same : values'.Perm values) : top' = top := by
  by_cases bins : values = []
  · subst bins
    obtain rfl := List.perm_nil.mp same
    rw [(isPeak_nil_iff.mp peak).2, (isPeak_nil_iff.mp peak').2]
  · have bins' : values' ≠ [] := by
      rintro rfl
      exact bins (List.nil_perm.mp same)
    have among : top ∈ values := peak.mem bins
    have among' : top' ∈ values := same.mem_iff.mp (peak'.mem bins')
    apply (unsigned top' among').le_antisymm (unsigned top among)
    · exact ((isPeak_iff bins).mp peak).2 top' among'
    · exact ((isPeak_iff bins').mp peak').2 top (same.mem_iff.mpr among)

theorem IsPeak.unique (unsigned : ∀ y ∈ values, y.Unsigned) (peak : IsPeak values bin top)
    (peak' : IsPeak values bin' top') : bin' = bin ∧ top' = top := by
  obtain rfl := peak.top_eq_of_perm unsigned peak' (List.Perm.refl values)
  refine ⟨?_, rfl⟩
  by_cases bins : values = []
  · subst bins
    rw [(isPeak_nil_iff.mp peak).1, (isPeak_nil_iff.mp peak').1]
  · exact ((isPeak_iff bins).mp peak').1.unique ((isPeak_iff bins).mp peak).1

theorem isPeak_concat_of_lt (number : x.isNaN = false) (louder : ∀ y ∈ values, y < x) :
    IsPeak (values ++ [x]) values.length x := by
  refine .first ⟨List.getElem?_concat_length, fun i here => ?_⟩ ?_
  · by_contra before
    have earlier : values[i]? = some x :=
      (List.getElem?_append_left (not_le.mp before)).symm.trans here
    exact not_lt_of_le (le_self number) (louder x (List.mem_of_getElem? earlier))
  · rw [List.forall_mem_append, List.forall_mem_singleton]
    exact ⟨fun y among => le_of_lt (louder y among), le_self number⟩

theorem IsPeak.concat_of_le (bins : values ≠ []) (peak : IsPeak values bin top) (quiet : x ≤ top) :
    IsPeak (values ++ [x]) bin top := by
  obtain ⟨least, most⟩ := (isPeak_iff bins).mp peak
  have inside : bin < values.length := (List.getElem?_eq_some_iff.mp least.1).1
  refine .first ⟨(List.getElem?_append_left inside).trans least.1, fun i here => ?_⟩ ?_
  · by_contra before
    have earlier : values[i]? = some top :=
      (List.getElem?_append_left ((not_le.mp before).trans inside)).symm.trans here
    exact before (least.2 earlier)
  · rw [List.forall_mem_append, List.forall_mem_singleton]
    exact ⟨most, quiet⟩

/-- The least finite number, with which the search for the bin begins. -/
def lowest : Binary32 := .ofCode true (single.infinityCode - 1)

/-- The bin that the search has found among the values, and the magnitude that it goes by. -/
def search (values : List Binary32) : Nat × Binary32 :=
  values.zipIdx.foldl (fun best (v, i) => if best.2 < v then (i, v) else best) (0, lowest)

theorem peakBin_eq (values : List Binary32) : peakBin values = (search values).1 := rfl

theorem search_concat (values : List Binary32) (x : Binary32) :
    search (values ++ [x]) =
      if (search values).2 < x then (values.length, x) else search values := by
  rw [search, List.zipIdx_append, List.foldl_append, Nat.zero_add]
  rfl

theorem loudest_concat (values : List Binary32) (x : Binary32) :
    loudest (values ++ [x]) = (loudest values).max x := by
  rw [loudest, List.foldl_append]
  rfl

theorem lowest_lt (unsigned : x.Unsigned) : lowest < x :=
  lt_of_lt_of_le (by decide) unsigned.zero_le

/-- Whatever bins the searches have seen, they have found the peak of these. Only before the first
bin do they go by different magnitudes. -/
theorem isPeak_search (unsigned : ∀ x ∈ values, x.Unsigned) :
    IsPeak values (search values).1 (loudest values) ∧
      (values ≠ [] → (search values).2 = loudest values) := by
  induction values using List.reverseRecOn with
  | nil => exact ⟨.empty, absurd rfl⟩
  | append_singleton values x ih =>
    obtain ⟨before, last⟩ := List.forall_mem_append.mp unsigned
    have next : x.Unsigned := last x (List.mem_singleton_self x)
    obtain ⟨peak, same⟩ := ih before
    rw [search_concat, loudest_concat]
    by_cases bins : values = []
    · subst bins
      have start : (search []).2 < x := lowest_lt next
      have louder : (loudest []).max x = x := next.zero_max
      rw [if_pos start, louder]
      exact ⟨isPeak_concat_of_lt next.isNaN (List.forall_mem_nil _), fun _ => rfl⟩
    · obtain ⟨-, most⟩ := (isPeak_iff bins).mp peak
      have number : (loudest values).isNaN = false :=
        (isNaN_of_le (most _ (peak.mem bins))).1
      rw [same bins]
      rcases le_or_lt next.isNaN number with quiet | louder
      · rw [if_neg (not_lt_of_le quiet), max_eq_left quiet]
        exact ⟨peak.concat_of_le bins quiet, fun _ => same bins⟩
      · rw [if_pos louder, max_eq_right louder]
        refine ⟨isPeak_concat_of_lt next.isNaN fun y among => ?_, fun _ => rfl⟩
        exact lt_of_le_of_lt (most y among) louder

theorem isPeak_peakBin (unsigned : ∀ x ∈ values, x.Unsigned) :
    IsPeak values (peakBin values) (loudest values) := by
  rw [peakBin_eq]
  exact (isPeak_search unsigned).1

end Spectrum

namespace Chart

open Spectrum (IsPeak peakBin)

/-- The chart's own loudest magnitude is that of the bin, and of its lines the last two tell of
the magnitude and of the bin's frequency. -/
structure Describes (chart : Chart) (bin : Nat) (magnitude sampleRate : Binary32)
    (fftSize : Nat) : Prop where
  loudest : chart.loudest = magnitude
  lines : chart.info.drop 2 =
    ["Max Magnitude: " ++ magnitude.fixed 4,
      "Peak: " ++ Label.frequency (Spectrum.binFrequency bin sampleRate fftSize)]

theorem describes_layout (values : List Binary32) (area : Area) (sampleRate : Binary32)
    (fftSize : Nat) :
    (layout values area sampleRate fftSize).Describes (peakBin values) (Spectrum.loudest values)
      sampleRate fftSize :=
  ⟨rfl, rfl⟩

/-- In every frame of values without a minus both searches find the peak, the loudest magnitude does
not depend on the order of the bins, and what the chart describes is the peak. -/
theorem describes_peak {values : List Binary32} (unsigned : ∀ x ∈ values, x.Unsigned) (area : Area)
    (sampleRate : Binary32) (fftSize : Nat) :
    IsPeak values (peakBin values) (Spectrum.loudest values) ∧
      (∀ reordered : List Binary32, reordered.Perm values →
        Spectrum.loudest reordered = Spectrum.loudest values) ∧
      ∀ bin top, IsPeak values bin top →
        (layout values area sampleRate fftSize).Describes bin top sampleRate fftSize := by
  have peak := Spectrum.isPeak_peakBin unsigned
  refine ⟨peak, fun reordered same => ?_, fun bin top other => ?_⟩
  · have peak' : IsPeak reordered (peakBin reordered) (Spectrum.loudest reordered) :=
      Spectrum.isPeak_peakBin fun x among => unsigned x (same.mem_iff.mp among)
    exact peak.top_eq_of_perm unsigned peak' same
  · obtain ⟨rfl, rfl⟩ := peak.unique unsigned other
    exact describes_layout values area sampleRate fftSize

/-- Silence, and infinity in two bins: the first of them is described. -/
theorem describes_peak_tied :
    let area : Area := ⟨0, 0, .ofNat 256, .ofNat 256⟩
    let values : List Binary32 := [zeroOf false, .infinite false, 1, .infinite false]
    (∀ x ∈ values, x.Unsigned) ∧ IsPeak values 1 (.infinite false) ∧
      Spectrum.loudest [.infinite false, .infinite false, 1, zeroOf false] = .infinite false ∧
      (layout values area 44100 8).info.drop 2 = ["Max Magnitude: inf", "Peak: 5512 Hz"] := by
  intro area values
  have unsigned : ∀ x ∈ values, x.Unsigned := by
    intro x among
    simp only [values, List.mem_cons, List.not_mem_nil, or_false] at among
    rcases among with rfl | rfl | rfl | rfl
    · exact ⟨0, rfl⟩
    · exact unsigned_infinite
    · exact unsigned_ofNat 1
    · exact unsigned_infinite
  have bin : peakBin values = 1 := by decide
  have top : Spectrum.loudest values = .infinite false := by decide
  obtain ⟨peak, reordered, described⟩ := describes_peak unsigned area 44100 8
  rw [bin, top] at peak
  rw [top] at reordered
  refine ⟨unsigned, peak, reordered _ (by decide), (described _ _ peak).lines.trans ?_⟩
  decide

end Chart

end SpectrumViewer
