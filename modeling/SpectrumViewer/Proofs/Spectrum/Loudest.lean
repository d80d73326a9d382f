import SpectrumViewer.Proofs.Number.Order
import SpectrumViewer.Spectrum.Magnitude

set_option autoImplicit false

/-!
The loudest magnitude of a frame is the least number that is above none of its magnitudes and not
negative (`isLoudest_loudest`), and the frame is drawn to a scale that no magnitude exceeds.
-/

namespace SpectrumViewer

namespace Spectrum

open Binary32

/-- Finite values that are positive or zeros. -/
def Nonnegative (values : List Binary32) : Prop := ∀ x ∈ values, ∃ q, x.value? = some q ∧ 0 ≤ q

theorem nonnegative_of_sign {values : List Binary32}
    (signs : ∀ x ∈ values, ∃ code, x = .finite false code) : Nonnegative values := by
  intro x among
  obtain ⟨code, rfl⟩ := signs x among
  refine ⟨_, rfl, ?_⟩
  rw [signed_false, Int.cast_natCast]
  exact units_div_nonneg code

/-- The largest number that a value stands for, or zero. -/
structure IsLoudest (values : List Binary32) (m : ℚ) : Prop where
  nonneg : 0 ≤ m
  le : ∀ x ∈ values, ∀ q, x.value? = some q → q ≤ m
  attained : m = 0 ∨ ∃ x ∈ values, x.value? = some m

variable {values : List Binary32} {x : Binary32} {m q : ℚ}

theorem IsLoudest.unique {m' : ℚ} (h : IsLoudest values m) (h' : IsLoudest values m') : m = m' := by
  have least {p q : ℚ} (hp : IsLoudest values p) (hq : IsLoudest values q) : p ≤ q := by
    rcases hp.attained with zero | ⟨x, among, value⟩
    · exact zero ▸ hq.nonneg
    · exact hq.le x among p value
  exact le_antisymm (least h h') (least h' h)

theorem value?_foldl_max (numbers : ∀ y ∈ values, ∃ r, y.value? = some r)
    (start : x.value? = some q) :
    ∃ m, (values.foldl Binary32.max x).value? = some m ∧ q ≤ m ∧
      (∀ y ∈ values, ∀ r, y.value? = some r → r ≤ m) ∧
      (m = q ∨ ∃ y ∈ values, y.value? = some m) := by
  induction values generalizing x q with
  | nil => exact ⟨q, start, le_rfl, by simp, Or.inl rfl⟩
  | cons y rest ih =>
    obtain ⟨r, value⟩ := numbers y List.mem_cons_self
    obtain ⟨m, found, above, most, attained⟩ :=
      ih (fun z among => numbers z (List.mem_cons_of_mem y among)) (value?_max start value)
    refine ⟨m, found, (le_max_left q r).trans above, ?_, ?_⟩
    · intro z among s valueZ
      rcases List.mem_cons.mp among with rfl | later
      · obtain rfl : r = s := Option.some.inj (value.symm.trans valueZ)
        exact (le_max_right q r).trans above
      · exact most z later s valueZ
    · rcases attained with same | ⟨z, among, valueZ⟩
      · rcases max_choice q r with first | second
        · exact Or.inl (same.trans first)
        · exact Or.inr ⟨y, List.mem_cons_self, by rw [value, same, second]⟩
      · exact Or.inr ⟨z, List.mem_cons_of_mem y among, valueZ⟩

theorem isLoudest_loudest (nonnegative : Nonnegative values) :
    ∃ m, (loudest values).value? = some m ∧ IsLoudest values m := by
  have numbers : ∀ y ∈ values, ∃ r, y.value? = some r := fun y among =>
    (nonnegative y among).imp fun r value => value.1
  obtain ⟨m, found, nonneg, most, attained⟩ := value?_foldl_max numbers value?_zero
  exact ⟨m, found, nonneg, most, attained⟩

theorem value?_scaleOf (value : x.value? = some m) :
    (scaleOf x).value? = some (if 0 < m then m else 1) := by
  rw [scaleOf]
  by_cases positive : 0 < m
  · rw [if_pos ((lt_iff value?_zero value).mpr positive), if_pos positive, value]
  · rw [if_neg ((lt_iff value?_zero value).not.mpr positive), if_neg positive, value?_one]

theorem IsLoudest.eq_zero (loud : IsLoudest values m) (silent : ∀ y ∈ values, ¬0 < y) : m = 0 := by
  rcases loud.attained with zero | ⟨y, among, value⟩
  · exact zero
  · have least := (lt_iff value?_zero value).not.mp (silent y among)
    exact le_antisymm (not_lt.mp least) loud.nonneg

theorem exists_scaleOf (value : x.value? = some m) :
    ∃ s, (scaleOf x).value? = some s ∧ 0 < s ∧ m ≤ s := by
  refine ⟨_, value?_scaleOf value, ?_⟩
  split
  · exact ⟨by assumption, le_rfl⟩
  · exact ⟨zero_lt_one, by linarith⟩

theorem peakBin_le (values : List Binary32) : peakBin values ≤ values.length := by
  unfold peakBin
  refine List.foldlRecOn values.zipIdx _ (motive := fun best : Nat × Binary32 => best.1 ≤ values.length)
    (Nat.zero_le _) ?_
  rintro best small ⟨v, i⟩ among
  rw [List.mem_zipIdx_iff_getElem?] at among
  show (if best.2 < v then (i, v) else best).1 ≤ values.length
  split
  · exact (List.getElem?_eq_some_iff.mp among).1.le
  · exact small

end Spectrum

end SpectrumViewer
