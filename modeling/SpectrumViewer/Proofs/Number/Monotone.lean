import SpectrumViewer.Proofs.Number.Order

set_option autoImplicit false

/-!
Operations keep the order of values, also where their results are infinite. A sum with a finite
value and a quotient by a positive one are monotone on all values that are numbers
(`add_le_add_left`, `div_le_div_right`), and what comes of rounding a larger number is no smaller
(`IsRounding.le`). Among values without a minus no two are equal in the order
(`Unsigned.le_antisymm`).
-/

namespace SpectrumViewer

open BinaryFormat (single)

namespace Binary32

variable {x y z : Binary32} {p q : ℚ}

theorem le_trans (h : x ≤ y) (h' : y ≤ z) : x ≤ z := by
  rw [le_iff_rank] at h h' ⊢
  obtain ⟨a, b, rankX, rankY, le⟩ := h
  obtain ⟨b', c, rankY', rankZ, le'⟩ := h'
  obtain rfl := Option.some.inj (rankY.symm.trans rankY')
  exact ⟨a, c, rankX, rankZ, le.trans le'⟩

theorem lt_of_le_of_lt (h : x ≤ y) (h' : y < z) : x < z := by
  rw [le_iff_rank] at h
  rw [lt_iff_rank] at h' ⊢
  obtain ⟨a, b, rankX, rankY, le⟩ := h
  obtain ⟨b', c, rankY', rankZ, lt⟩ := h'
  obtain rfl := Option.some.inj (rankY.symm.trans rankY')
  exact ⟨a, c, rankX, rankZ, le.trans_lt lt⟩

theorem lt_of_lt_of_le (h : x < y) (h' : y ≤ z) : x < z := by
  rw [lt_iff_rank] at h ⊢
  rw [le_iff_rank] at h'
  obtain ⟨a, b, rankX, rankY, lt⟩ := h
  obtain ⟨b', c, rankY', rankZ, le⟩ := h'
  obtain rfl := Option.some.inj (rankY.symm.trans rankY')
  exact ⟨a, c, rankX, rankZ, lt.trans_le le⟩

theorem le_of_lt (h : x < y) : x ≤ y := by
  rw [lt_iff_rank] at h
  rw [le_iff_rank]
  obtain ⟨a, b, rankX, rankY, lt⟩ := h
  exact ⟨a, b, rankX, rankY, lt.le⟩

theorem not_lt_of_le (h : x ≤ y) : ¬y < x := by
  rw [le_iff_rank] at h
  rw [lt_iff_rank]
  rintro ⟨b', a', rankY', rankX', lt⟩
  obtain ⟨a, b, rankX, rankY, le⟩ := h
  obtain rfl := Option.some.inj (rankX.symm.trans rankX')
  obtain rfl := Option.some.inj (rankY.symm.trans rankY')
  exact absurd lt le.not_gt

theorem max_eq_right (h : x < y) : x.max y = y := by
  rw [Binary32.max, if_pos h, ite_self]

theorem max_eq_left (h : y ≤ x) : x.max y = x := by
  rw [Binary32.max, (isNaN_of_le h).2, if_neg Bool.false_ne_true, if_neg (not_lt_of_le h)]

theorem isNaN_of_value? (value : x.value? = some p) : x.isNaN = false := by
  cases x <;> first | rfl | cases value

theorem le_iff (hx : x.value? = some p) (hy : y.value? = some q) : x ≤ y ↔ p ≤ q := by
  obtain ⟨s, a, rfl, rfl⟩ := eq_finite_of_value? hx
  obtain ⟨t, b, rfl, rfl⟩ := eq_finite_of_value? hy
  rw [div_le_div_iff_of_pos_right one_pos, Int.cast_le, ← not_lt, signed_units_lt_iff, not_lt]
  exact decide_eq_true_iff

theorem signed_between (s : Bool) (c : Fin single.infinityCode) :
    -(single.infinityCode : Int) < signed s c ∧ signed s c < single.infinityCode := by
  have below : (c.val : Int) < single.infinityCode := mod_cast c.isLt
  cases s
  · rw [signed_false]
    omega
  · rw [signed_true]
    omega

theorem finite_true_le_zero (c : Fin single.infinityCode) : finite true c ≤ 0 :=
  decide_eq_true (neg_nonpos.mpr (Int.natCast_nonneg c.val))

theorem infinite_true_le (number : x.isNaN = false) : infinite true ≤ x := by
  cases x with
  | nan => cases number
  | infinite s => cases s <;> decide
  | finite s c => exact decide_eq_true (signed_between s c).1.le

theorem le_infinite_false (number : x.isNaN = false) : x ≤ infinite false := by
  cases x with
  | nan => cases number
  | infinite s => cases s <;> decide
  | finite s c => exact decide_eq_true (signed_between s c).2.le

theorem eq_infinite_of_le (h : infinite false ≤ x) : x = infinite false := by
  cases x with
  | nan => cases (isNaN_of_le h).2
  | infinite s => cases s <;> first | rfl | exact absurd h (by decide)
  | finite s c => exact absurd (of_decide_eq_true h) (signed_between s c).2.not_ge

theorem eq_infinite_true_of_le (h : x ≤ infinite true) : x = infinite true := by
  cases x with
  | nan => cases (isNaN_of_le h).1
  | infinite s => cases s <;> first | rfl | exact absurd h (by decide)
  | finite s c => exact absurd (of_decide_eq_true h) (signed_between s c).1.not_ge

/-- One value is no larger than another where it is below all numbers, where the other is above all
numbers, and where both are finite and stand for numbers in this order. -/
theorem le_iff_cases : x ≤ y ↔
    (x = infinite true ∧ y.isNaN = false) ∨ (x.isNaN = false ∧ y = infinite false) ∨
      ∃ p q, x.value? = some p ∧ y.value? = some q ∧ p ≤ q := by
  constructor
  · intro h
    obtain ⟨numberX, numberY⟩ := isNaN_of_le h
    cases x with
    | nan => cases numberX
    | infinite s =>
      cases s with
      | true => exact Or.inl ⟨rfl, numberY⟩
      | false => exact Or.inr (Or.inl ⟨rfl, eq_infinite_of_le h⟩)
    | finite s c =>
      cases y with
      | nan => cases numberY
      | finite t d => exact Or.inr (Or.inr ⟨_, _, rfl, rfl, (le_iff rfl rfl).mp h⟩)
      | infinite t =>
        cases t with
        | false => exact Or.inr (Or.inl ⟨rfl, rfl⟩)
        | true => cases eq_infinite_true_of_le h
  · rintro (⟨rfl, number⟩ | ⟨number, rfl⟩ | ⟨p, q, valueX, valueY, le⟩)
    · exact infinite_true_le number
    · exact le_infinite_false number
    · exact (le_iff valueX valueY).mpr le

/-- What lies between two finite values is finite. -/
theorem exists_value?_between (hx : x.value? = some p) (hz : z.value? = some q) (above : x ≤ y)
    (below : y ≤ z) : ∃ v, y.value? = some v ∧ p ≤ v ∧ v ≤ q := by
  rcases le_iff_cases.mp above with ⟨rfl, -⟩ | ⟨-, rfl⟩ | ⟨p', v, valueX, valueY, le⟩
  · cases hx
  · rcases le_iff_cases.mp below with ⟨same, -⟩ | ⟨-, rfl⟩ | ⟨v, -, valueY, -⟩
    · cases same
    · cases hz
    · cases valueY
  · obtain rfl := Option.some.inj (hx.symm.trans valueX)
    exact ⟨v, valueY, le, (le_iff valueY hz).mp below⟩

theorem eq_of_value? (hx : x.value? = some q) (hy : y.value? = some q) (positive : 0 < q) :
    x = y := by
  obtain ⟨c, rfl⟩ := Within.eq_finite_false ⟨q, hx, le_rfl, le_rfl⟩ positive
  obtain ⟨d, rfl⟩ := Within.eq_finite_false ⟨q, hy, le_rfl, le_rfl⟩ positive
  have same := Option.some.inj (hx.trans hy.symm)
  rw [signed_false, signed_false, div_left_inj' one_pos.ne', Int.cast_inj, Int.natCast_inj] at same
  rw [Fin.ext (single.units_strictMono.injective same)]

/-- The largest value below another one. -/
def Precedes (x y : Binary32) : Prop := x < y ∧ ∀ z, z < y → z ≤ x

theorem precedes_of_rank {a : Int} (hx : x.rank = some a) (hy : y.rank = some (a + 1)) :
    x.Precedes y := by
  refine ⟨lt_iff_rank.mpr ⟨a, a + 1, hx, hy, Int.lt_succ a⟩, fun z less => ?_⟩
  obtain ⟨c, b, rankZ, rankY, lt⟩ := lt_iff_rank.mp less
  obtain rfl := Option.some.inj (hy.symm.trans rankY)
  exact le_iff_rank.mpr ⟨c, a, rankZ, hx, Int.lt_add_one_iff.mp lt⟩

/-- Nothing lies between neighbours. -/
theorem Precedes.le_or_le (h : x.Precedes y) (number : z.isNaN = false) : z ≤ x ∨ y ≤ z :=
  (le_or_lt (isNaN_of_le (le_of_lt h.1)).2 number).symm.imp_left (h.2 z)

theorem exists_precedes (hy : y.isFinite = true) : ∃ x : Binary32, x.Precedes y := by
  cases y with
  | nan => cases hy
  | infinite s => cases hy
  | finite s c =>
    obtain ⟨n, inside⟩ := c
    cases s with
    | false =>
      cases n with
      | zero => exact ⟨finite true ⟨1, by decide⟩, precedes_of_rank rfl rfl⟩
      | succ n => exact ⟨finite false ⟨n, by omega⟩, precedes_of_rank rfl rfl⟩
    | true =>
      have next : (finite true ⟨n, inside⟩).rank = some (-((n : Int) + 1) + 1) := by
        rw [neg_add, neg_add_cancel_right]
        rfl
      by_cases last : n + 1 < single.infinityCode
      · exact ⟨finite true ⟨n + 1, last⟩, precedes_of_rank rfl next⟩
      · refine ⟨infinite true, precedes_of_rank ?_ next⟩
        obtain same : single.infinityCode = n + 1 := by omega
        rw [rank, same]
        rfl

/-- A finite magnitude without a minus, or the infinity above all numbers. -/
def Unsigned (x : Binary32) : Prop := ∃ code, x = ofCode false code

theorem Unsigned.eq_infinite_or (h : x.Unsigned) :
    x = infinite false ∨ ∃ code, x = finite false code := by
  obtain ⟨code, rfl⟩ := h
  unfold ofCode
  split
  · exact Or.inr ⟨_, rfl⟩
  · exact Or.inl rfl

theorem unsigned_infinite : (infinite false).Unsigned := by
  refine ⟨single.infinityCode, ?_⟩
  rw [ofCode, dif_neg (lt_irrefl _)]

theorem unsigned_ofNat (n : Nat) : (ofNat n).Unsigned := ⟨_, rfl⟩

theorem Unsigned.div (h : x.Unsigned) {d : Fin single.infinityCode} (nonzero : d.val ≠ 0) :
    (x / finite false d).Unsigned := by
  rcases h.eq_infinite_or with rfl | ⟨c, rfl⟩
  · exact unsigned_infinite
  · have shape : finite false c / finite false d =
        rounded false (single.units c * one) (single.units d) := if_neg nonzero
    rw [shape]
    exact ⟨_, rfl⟩

theorem Unsigned.isNaN (h : x.Unsigned) : x.isNaN = false := by
  rcases h.eq_infinite_or with rfl | ⟨c, rfl⟩ <;> rfl

theorem Unsigned.zero_le (h : x.Unsigned) : 0 ≤ x := by
  rcases h.eq_infinite_or with rfl | ⟨c, rfl⟩
  · exact le_infinite_false rfl
  · exact decide_eq_true (Int.natCast_nonneg c)

/-- Without a minus there is one zero, so values with neither above the other are equal. -/
theorem Unsigned.le_antisymm (hx : x.Unsigned) (hy : y.Unsigned) (h : x ≤ y) (h' : y ≤ x) :
    x = y := by
  rcases hx.eq_infinite_or with rfl | ⟨c, rfl⟩
  · exact (eq_infinite_of_le h).symm
  rcases hy.eq_infinite_or with rfl | ⟨d, rfl⟩
  · exact eq_infinite_of_le h'
  · have below : (c : Int) ≤ d := of_decide_eq_true h
    have above : (d : Int) ≤ c := of_decide_eq_true h'
    obtain rfl : c = d := Fin.ext (Int.natCast_inj.mp (below.antisymm above))
    rfl

theorem Unsigned.zero_max (h : x.Unsigned) : (0 : Binary32).max x = x := by
  have silent : (0 : Binary32).Unsigned := unsigned_ofNat 0
  rcases le_or_lt h.isNaN silent.isNaN with quiet | louder
  · rw [max_eq_left quiet, h.le_antisymm silent quiet h.zero_le]
  · exact max_eq_right louder

theorem Nearest.isNaN (h : Nearest q x) : x.isNaN = false := by
  obtain @⟨negative, code, -, -, -⟩ := h
  unfold ofCode
  split <;> rfl

theorem Nearest.eq_infinite (h : Nearest q x) (infinite : ¬x.isFinite = true) :
    x = .infinite (decide (q < 0)) := by
  have large := h.isFinite_iff.not.mp infinite
  obtain @⟨negative, code, -, below, above⟩ := h
  have nonzero : q ≠ 0 := by
    rintro rfl
    norm_num at large
  have shape : ofCode negative code = .infinite negative := by
    unfold ofCode at infinite ⊢
    split
    · rename_i finite
      rw [dif_pos finite] at infinite
      exact absurd rfl infinite
    · rfl
  rw [shape]
  rcases nonzero.lt_or_gt with less | greater
  · rw [below less, decide_eq_true less]
  · rw [above greater, decide_eq_false greater.not_gt]

theorem Nearest.le (hx : Nearest p x) (hy : Nearest q y) (le : p ≤ q) : x ≤ y := by
  by_cases finiteX : x.isFinite = true
  · by_cases finiteY : y.isFinite = true
    · obtain ⟨u, valueX⟩ := Binary32.isFinite_iff.mp finiteX
      obtain ⟨v, valueY⟩ := Binary32.isFinite_iff.mp finiteY
      exact (le_iff valueX valueY).mpr (hx.mono hy valueX valueY le)
    · have shape := hy.eq_infinite finiteY
      rw [hy.isFinite_iff, not_lt] at finiteY
      rw [hx.isFinite_iff] at finiteX
      have nonneg : ¬q < 0 := by
        intro negative
        rw [abs_of_neg negative] at finiteY
        rw [abs_of_neg (le.trans_lt negative)] at finiteX
        linarith
      rw [shape, decide_eq_false nonneg]
      exact le_infinite_false hx.isNaN
  · have shape := hx.eq_infinite finiteX
    rw [shape]
    by_cases negative : p < 0
    · rw [decide_eq_true negative]
      exact infinite_true_le hy.isNaN
    · rw [hx.isFinite_iff, not_lt, abs_of_nonneg (not_lt.mp negative)] at finiteX
      have beyond : ¬y.isFinite = true := by
        rw [hy.isFinite_iff, not_lt]
        exact (finiteX.trans le).trans (le_abs_self q)
      have nonneg : ¬q < 0 := not_lt.mpr ((not_lt.mp negative).trans le)
      rw [decide_eq_false negative, hy.eq_infinite beyond, decide_eq_false nonneg]
      decide

theorem IsRounding.le (hx : x.IsRounding p) (hy : y.IsRounding q) (le : p ≤ q) : x ≤ y :=
  hx.nearest.le hy.nearest le

theorem isNaN_add (hx : x.isFinite = true) (hy : y.isNaN = false) : (x + y).isNaN = false := by
  obtain ⟨p, valueX⟩ := isFinite_iff.mp hx
  obtain ⟨s, c, rfl, -⟩ := eq_finite_of_value? valueX
  cases y with
  | nan => cases hy
  | infinite t => rfl
  | finite t d => exact (isRounding_add valueX rfl).nearest.isNaN

theorem isNaN_div (hx : x.isNaN = false) (hy : y.value? = some q) (nonzero : q ≠ 0) :
    (x / y).isNaN = false := by
  cases x with
  | nan => cases hx
  | infinite s =>
    obtain ⟨t, d, rfl, -⟩ := eq_finite_of_value? hy
    rfl
  | finite s c => exact (isRounding_div rfl hy nonzero).nearest.isNaN

theorem add_le_add_left (hz : z.isFinite = true) (h : x ≤ y) : z + x ≤ z + y := by
  obtain ⟨r, value⟩ := isFinite_iff.mp hz
  obtain ⟨numberX, numberY⟩ := isNaN_of_le h
  rcases le_iff_cases.mp h with ⟨rfl, -⟩ | ⟨-, rfl⟩ | ⟨p, q, valueX, valueY, le⟩
  · obtain ⟨s, c, rfl, -⟩ := eq_finite_of_value? value
    exact infinite_true_le (isNaN_add hz numberY)
  · obtain ⟨s, c, rfl, -⟩ := eq_finite_of_value? value
    exact le_infinite_false (isNaN_add hz numberX)
  · exact (isRounding_add value valueX).le (isRounding_add value valueY) (by linarith)

theorem div_le_div_right {r : ℚ} (hz : z.value? = some r) (positive : 0 < r) (h : x ≤ y) :
    x / z ≤ y / z := by
  have nonzero := positive.ne'
  obtain ⟨numberX, numberY⟩ := isNaN_of_le h
  have quotientX := isNaN_div numberX hz nonzero
  have quotientY := isNaN_div numberY hz nonzero
  rcases le_iff_cases.mp h with ⟨rfl, -⟩ | ⟨-, rfl⟩ | ⟨p, q, valueX, valueY, le⟩
  · obtain ⟨c, rfl⟩ := Within.eq_finite_false ⟨r, hz, le_rfl, le_rfl⟩ positive
    exact infinite_true_le quotientY
  · obtain ⟨c, rfl⟩ := Within.eq_finite_false ⟨r, hz, le_rfl, le_rfl⟩ positive
    exact le_infinite_false quotientX
  · exact (isRounding_div valueX hz nonzero).le (isRounding_div valueY hz nonzero)
      (div_le_div_of_nonneg_right le positive.le)

end Binary32

end SpectrumViewer
