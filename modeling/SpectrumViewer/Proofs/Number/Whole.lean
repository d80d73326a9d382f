import SpectrumViewer.Number.Shortest
import SpectrumViewer.Proofs.Number.Nearest

set_option autoImplicit false

/-!
Whole numbers among the magnitudes. A number of units that is a magnitude is not rounded
(`BinaryFormat.nearest_units`), whole numbers of few enough bits are magnitudes, and the fewest
digits of one of them are its own digits without the zeros at their end (`digits_whole`).
-/

namespace SpectrumViewer

open BinaryFormat (single double)

namespace BinaryFormat

variable {f : BinaryFormat}

theorem isNearest_units (code : Nat) : f.IsNearest code (f.units code) := by
  constructor
  · intro other
    rw [sub_self, abs_zero]
    exact abs_nonneg _
  · intro other different tie
    rw [sub_self, abs_zero, eq_comm, abs_eq_zero, sub_eq_zero] at tie
    exact absurd (f.units_strictMono.injective (mod_cast tie)) different

theorem nearest_units (fraction : f.fractionBits ≠ 0) {code den : Nat} (positive : 0 < den)
    (finite : code ≤ f.infinityCode) : f.nearest (f.units code * den) den = code := by
  obtain ⟨found, same, nearest⟩ := exists_isNearest fraction (f.units code * den) positive
  have exact : ((f.units code * den : Nat) : ℚ) / den = f.units code := by
    have nonzero : (den : ℚ) ≠ 0 := mod_cast positive.ne'
    rw [Nat.cast_mul, mul_div_cancel_right₀ _ nonzero]
  rw [exact] at nearest
  rw [same, nearest.unique (isNearest_units code), Nat.min_eq_left finite]

end BinaryFormat

namespace Shortest

open Binary32 (one)

variable {code n : Nat}

theorem exists_units_eq_mul_one {m : Nat} (small : m ≤ 2 ^ 24) :
    ∃ code, single.units code = m * one :=
  single.exists_units_eq_mul_pow small single.unitBits

theorem units_succ_le (whole : single.units code = n * one) (small : n ≤ 2 ^ 24) :
    single.units (code + 1) ≤ (if n % 2 = 0 then n + 2 else n + 1) * one := by
  rcases Nat.lt_or_eq_of_le small with less | rfl
  · obtain ⟨next, same⟩ := exists_units_eq_mul_one less
    have above : code < next := by
      apply single.units_strictMono.lt_iff_lt.mp
      rw [whole, same]
      exact Nat.mul_lt_mul_of_pos_right (Nat.lt_succ_self n) (Nat.two_pow_pos _)
    have ordered : single.units (code + 1) ≤ (n + 1) * one :=
      (single.units_strictMono.monotone above).trans_eq same
    exact ordered.trans (Nat.mul_le_mul_right _ (by split <;> omega))
  · have same : code = 0x4B800000 := by
      apply single.units_strictMono.injective
      rw [whole]
      decide +kernel
    rw [same]
    decide +kernel

theorem le_units_pred (positive : 0 < n) (whole : single.units code = n * one)
    (small : n ≤ 2 ^ 24) : (n - 1) * one ≤ single.units (code - 1) := by
  obtain ⟨last, same⟩ := exists_units_eq_mul_one ((Nat.sub_le n 1).trans small)
  have below : last < code := by
    apply single.units_strictMono.lt_iff_lt.mp
    rw [whole, same]
    exact Nat.mul_lt_mul_of_pos_right (by omega) (Nat.two_pow_pos _)
  rw [← same]
  exact single.units_strictMono.monotone (Nat.le_sub_one_of_lt below)

theorem gridFactor_natCast (grid : Nat) : gridFactor grid = 1 := by
  rw [gridFactor, Int.toNat_of_nonpos (by omega), Nat.pow_eq, Nat.pow_zero]

theorem gridStep_natCast (grid : Nat) : gridStep grid = 10 ^ grid * (2 * one) := by
  rw [gridStep, Int.toNat_natCast, Nat.pow_eq]

theorem readsBack_natCast (grid k : Nat) :
    readsBack code grid k = true ↔
      if code % 2 = 0 then
        single.units (code - 1) + single.units code ≤ 2 * (k * 10 ^ grid) * one ∧
          2 * (k * 10 ^ grid) * one ≤ single.units code + single.units (code + 1)
      else single.units (code - 1) + single.units code < 2 * (k * 10 ^ grid) * one ∧
          2 * (k * 10 ^ grid) * one < single.units code + single.units (code + 1) := by
  have point : k * gridStep grid = 2 * (k * 10 ^ grid) * one := by
    rw [gridStep_natCast]
    ring
  unfold readsBack
  rw [gridFactor_natCast, point, Nat.mul_one, Nat.mul_one]
  split <;> rw [decide_eq_true_iff]

theorem readsBack_of_eq (positive : 0 < n) (whole : single.units code = n * one) {grid k : Nat}
    (same : k * 10 ^ grid = n) : readsBack code grid k = true := by
  have nonzero : code ≠ 0 := by
    rintro rfl
    rw [BinaryFormat.units_of_lt _ BinaryFormat.hidden_pos] at whole
    exact absurd whole.symm (Nat.mul_pos positive (Nat.two_pow_pos _)).ne'
  have below : single.units (code - 1) < single.units code :=
    single.units_strictMono (by omega)
  have above : single.units code < single.units (code + 1) :=
    single.units_strictMono (Nat.lt_succ_self code)
  rw [readsBack_natCast, same, Nat.mul_assoc, ← whole]
  split <;> omega

theorem readsBack_of_ne (positive : 0 < n) (whole : single.units code = n * one)
    (small : n ≤ 2 ^ 24) {grid k : Nat} (apart : k * 10 ^ (grid + 1) ≠ n) :
    readsBack code (grid + 1 : Nat) k = false := by
  have even : k * 10 ^ (grid + 1) % 2 = 0 := by
    rw [Nat.pow_succ, ← Nat.mul_assoc]
    omega
  have next := units_succ_le whole small
  have last := le_units_pred positive whole small
  have unit : 0 < one := Nat.two_pow_pos _
  rw [← Bool.not_eq_true, readsBack_natCast, whole]
  generalize k * 10 ^ (grid + 1) = point at apart even
  rcases Nat.lt_or_gt_of_ne apart with less | greater
  · have low : 2 * point * one < (n - 1) * one + n * one := by
      rw [← Nat.add_mul]
      exact Nat.mul_lt_mul_of_pos_right (by omega) unit
    split <;> omega
  · have high : n * one + (if n % 2 = 0 then n + 2 else n + 1) * one < 2 * point * one := by
      rw [← Nat.add_mul]
      exact Nat.mul_lt_mul_of_pos_right (by split <;> omega) unit
    split <;> omega

/-- On the grid of a power of ten there are only the whole numbers that it divides. -/
theorem onGrid?_natCast (tie : Tie) (positive : 0 < n) (whole : single.units code = n * one)
    (small : n ≤ 2 ^ 24) (grid : Nat) :
    onGrid? tie code grid = if 10 ^ grid ∣ n then some (n / 10 ^ grid) else none := by
  have unit : 0 < 2 * one := Nat.mul_pos two_pos (Nat.two_pow_pos _)
  have value : 2 * single.units code * gridFactor grid = n * (2 * one) := by
    rw [gridFactor_natCast, whole]
    ring
  have below : 2 * single.units code * gridFactor grid / gridStep grid = n / 10 ^ grid := by
    rw [value, gridStep_natCast, Nat.mul_div_mul_right _ _ unit]
  unfold onGrid?
  dsimp only
  rw [below, value]
  by_cases divides : 10 ^ grid ∣ n
  · have same := Nat.div_mul_cancel divides
    have exact : n / 10 ^ grid * gridStep grid = n * (2 * one) := by
      rw [gridStep_natCast, ← Nat.mul_assoc, same]
    rw [if_pos divides, readsBack_of_eq positive whole same, exact, Nat.sub_self, Nat.succ_mul,
      exact, Nat.add_sub_cancel_left]
    have step : 0 < gridStep grid := by
      rw [gridStep_natCast]
      exact Nat.mul_pos (Nat.pow_pos (by decide)) unit
    cases readsBack code grid (n / 10 ^ grid + 1) with
    | false => rfl
    | true => exact if_pos step
  · cases grid with
    | zero => exact absurd (one_dvd n) divides
    | succ grid =>
      have apart {k : Nat} : k * 10 ^ (grid + 1) ≠ n := by
        rintro rfl
        exact divides (Nat.dvd_mul_left _ _)
      rw [if_neg divides, readsBack_of_ne positive whole small apart,
        readsBack_of_ne positive whole small apart]

theorem pointPosition_whole (positive : 0 < n) (whole : single.units code = n * one)
    (small : n ≤ 2 ^ 24) :
    ∃ top : Nat, pointPosition (single.units code) = (top + 1 : Nat) ∧ top < 9 := by
  have digits : single.units code * Nat.pow 10 45 / one = n * 10 ^ 45 := by
    rw [whole, Nat.mul_right_comm, Nat.mul_div_cancel _ (show 0 < one from Nat.two_pow_pos _),
      Nat.pow_eq]
  have least : 45 < (Nat.toDigits 10 (n * 10 ^ 45)).length := by
    rw [← Nat.not_le, Nat.length_toDigits_le_iff (by decide) (by decide)]
    exact Nat.not_lt.mpr (Nat.le_mul_of_pos_left _ positive)
  have most : (Nat.toDigits 10 (n * 10 ^ 45)).length ≤ 53 := by
    rw [Nat.length_toDigits_le_iff (by decide) (by decide)]
    omega
  refine ⟨(Nat.toDigits 10 (n * 10 ^ 45)).length - 46, ?_, by omega⟩
  rw [pointPosition, digits]
  omega

theorem exists_findSome?_range {α : Type} {f : Nat → Option α} {bound top : Nat}
    (few : top < bound) (last : (f top).isSome = true) :
    ∃ more ≤ top, ∃ a, f more = some a ∧ (List.range bound).findSome? f = some a := by
  have found : ((List.range bound).findSome? f).isSome = true :=
    List.findSome?_isSome_iff.mpr ⟨top, List.mem_range.mpr few, last⟩
  obtain ⟨a, hit⟩ := Option.isSome_iff_exists.mp found
  obtain ⟨front, more, behind, parts, here, before⟩ := List.findSome?_eq_some_iff.mp hit
  refine ⟨more, ?_, a, here, hit⟩
  by_contra late
  have among : top ∈ front ++ more :: behind := parts ▸ List.mem_range.mpr few
  have sorted : (front ++ more :: behind).Pairwise (· < ·) := parts ▸ List.pairwise_lt_range
  rcases List.mem_append.mp among with inFront | inRest
  · rw [before top inFront] at last
    cases last
  · rcases List.mem_cons.mp inRest with same | inBehind
    · omega
    · have := (List.pairwise_cons.mp (List.pairwise_append.mp sorted).2.1).1 top inBehind
      omega

/-- The fewest digits of a whole number are its own without some of the zeros at their end. -/
theorem digits_whole (tie : Tie) (positive : 0 < n) (whole : single.units code = n * one)
    (small : n ≤ 2 ^ 24) :
    ∃ k grid : Nat, digits tie code = (k, (grid : Int)) ∧ k * 10 ^ grid = n := by
  obtain ⟨top, point, few⟩ := pointPosition_whole positive whole small
  let hits (more : Nat) : Option (Nat × Int) :=
    let grid : Int := pointPosition (single.units code) - 1 - more
    (onGrid? tie code grid).map (·, grid)
  have onGrid (more : Nat) (early : more ≤ top) :
      hits more = if 10 ^ (top - more) ∣ n then
        some (n / 10 ^ (top - more), ((top - more : Nat) : Int)) else none := by
    have same : pointPosition (single.units code) - 1 - more = (top - more : Nat) := by omega
    dsimp only [hits]
    rw [same, onGrid?_natCast tie positive whole small]
    split <;> rfl
  have last : (hits top).isSome = true := by
    rw [onGrid top le_rfl, Nat.sub_self, Nat.pow_zero, if_pos (one_dvd n)]
    rfl
  obtain ⟨more, early, found, here, hit⟩ := exists_findSome?_range few last
  rw [onGrid more early] at here
  split at here
  · next divides =>
    cases here
    have same := Nat.div_mul_cancel divides
    unfold digits
    dsimp only [hits] at hit ⊢
    rw [hit]
    dsimp only
    split
    · next ten =>
      refine ⟨_, top - more + 1, rfl, ?_⟩
      rw [Nat.pow_succ', ← Nat.mul_assoc, Nat.div_mul_cancel (Nat.dvd_of_mod_eq_zero ten), same]
    · exact ⟨_, top - more, rfl, same⟩
  · cases here

end Shortest

end SpectrumViewer
