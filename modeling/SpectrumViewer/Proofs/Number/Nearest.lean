import Mathlib.Algebra.Order.Field.Rat
import Mathlib.Algebra.Order.Round
import Mathlib.Tactic.Linarith
import Mathlib.Tactic.FieldSimp
import Mathlib.Tactic.Positivity
import Mathlib.Tactic.Ring
import SpectrumViewer.Number.BinaryFormat

set_option autoImplicit false

/-!
Rounding to the nearest. A quotient rounds to the one whole number within half of it, or to the
even one of two (`roundHalfEven_eq_iff`). The code that a format chooses for a number of units is
that of the nearest magnitude, and of two equally near it is the even one
(`BinaryFormat.exists_isNearest`).
-/

namespace SpectrumViewer

/-- The whole number is within half of the number, or the even one of two that are. -/
def HalfEven (q : ℚ) (n : Nat) : Prop := |n - q| < 1 / 2 ∨ |n - q| = 1 / 2 ∧ Even n

theorem HalfEven.error {q : ℚ} {n : Nat} (h : HalfEven q n) : |n - q| ≤ 1 / 2 :=
  h.elim le_of_lt fun tie => tie.1.le

theorem HalfEven.unique {q : ℚ} {m n : Nat} (hm : HalfEven q m) (hn : HalfEven q n) : m = n := by
  have apart : |(m : ℚ) - n| ≤ |(m : ℚ) - q| + |(n : ℚ) - q| := by
    rw [abs_sub_comm (n : ℚ) q]
    exact abs_sub_le _ _ _
  have whole : |(m : ℚ) - n| = ((m : Int) - n).natAbs := by
    rw [Nat.cast_natAbs]
    push_cast
    rfl
  rw [whole] at apart
  have errorM := hm.error
  have errorN := hn.error
  rcases hm with hm | ⟨-, evenM⟩
  · have same : ((m : Int) - n).natAbs < 1 := by
      exact_mod_cast (by linarith : (((m : Int) - n).natAbs : ℚ) < 1)
    omega
  rcases hn with hn | ⟨-, evenN⟩
  · have same : ((m : Int) - n).natAbs < 1 := by
      exact_mod_cast (by linarith : (((m : Int) - n).natAbs : ℚ) < 1)
    omega
  · have close : ((m : Int) - n).natAbs ≤ 1 := by
      exact_mod_cast (by linarith : (((m : Int) - n).natAbs : ℚ) ≤ 1)
    rw [Nat.even_iff] at evenM evenN
    omega

theorem HalfEven.mono {p q : ℚ} {m n : Nat} (hm : HalfEven p m) (hn : HalfEven q n) (le : p ≤ q) :
    m ≤ n := by
  by_contra less
  have next : (n : ℚ) + 1 ≤ m := mod_cast Nat.lt_of_not_le less
  obtain ⟨-, above⟩ := abs_le.mp hm.error
  obtain ⟨below, -⟩ := abs_le.mp hn.error
  obtain rfl : p = q := le_antisymm le (by linarith)
  exact less (hm.unique hn).le

theorem HalfEven.lt_of_gap {p q : ℚ} {m n : Nat} (hm : HalfEven p m) (hn : HalfEven q n)
    (gap : 1 < q - p) : m < n := by
  obtain ⟨-, above⟩ := abs_le.mp hm.error
  obtain ⟨below, -⟩ := abs_le.mp hn.error
  have : (m : ℚ) < n := by linarith
  exact_mod_cast this

theorem HalfEven.closest {q : ℚ} {n : Nat} (h : HalfEven q n) (m : Nat) :
    |n - q| < |m - q| ∨ m = n ∨ |n - q| = |m - q| ∧ Even n := by
  rcases lt_trichotomy |(m : ℚ) - q| (1 / 2) with near | tie | far
  · have rounded : HalfEven q m := Or.inl near
    exact Or.inr (Or.inl (rounded.unique h))
  · rcases h with nearer | ⟨tie', even⟩
    · exact Or.inl (nearer.trans_eq tie.symm)
    · exact Or.inr (Or.inr ⟨tie'.trans tie.symm, even⟩)
  · exact Or.inl (h.error.trans_lt far)

theorem HalfEven.abs_sub_le {q : ℚ} {n : Nat} (h : HalfEven q n) (m : Nat) : |n - q| ≤ |m - q| := by
  rcases h.closest m with less | rfl | ⟨tie, -⟩
  · exact less.le
  · exact le_rfl
  · exact tie.le

theorem cast_div_eq (num : Nat) {den : Nat} (positive : 0 < den) :
    (num : ℚ) / den = (num / den : Nat) + ((num % den : Nat) : ℚ) / den := by
  have whole : (den : ℚ) * (num / den : Nat) + (num % den : Nat) = num :=
    mod_cast Nat.div_add_mod num den
  have nonzero : (den : ℚ) ≠ 0 := mod_cast positive.ne'
  field_simp
  linarith

theorem halfEven_tie (n : Nat) : HalfEven (n + 1 / 2) (n + n % 2) := by
  right
  rcases Nat.mod_two_eq_zero_or_one n with even | odd
  · refine ⟨?_, Nat.even_iff.mpr (by omega)⟩
    rw [even, abs_eq (by norm_num)]
    right
    push_cast
    ring
  · refine ⟨?_, Nat.even_iff.mpr (by omega)⟩
    rw [odd, abs_eq (by norm_num)]
    left
    push_cast
    ring

theorem halfEven_roundHalfEven (num : Nat) {den : Nat} (positive : 0 < den) :
    HalfEven (num / den) (roundHalfEven num den) := by
  have above : (0 : ℚ) < den := mod_cast positive
  rw [cast_div_eq num positive, roundHalfEven]
  have low : 0 ≤ ((num % den : Nat) : ℚ) / den := by positivity
  have high : ((num % den : Nat) : ℚ) / den < 1 := by
    rw [div_lt_one above]
    exact_mod_cast Nat.mod_lt num positive
  rcases lt_trichotomy (2 * (num % den)) den with down | tie | up
  · have half : ((num % den : Nat) : ℚ) / den < 1 / 2 := by
      rw [div_lt_div_iff₀ above two_pos]
      exact_mod_cast (by omega : num % den * 2 < 1 * den)
    left
    rw [if_pos down, abs_lt]
    constructor <;> linarith
  · have half : ((num % den : Nat) : ℚ) / den = 1 / 2 := by
      rw [div_eq_div_iff above.ne' two_ne_zero]
      exact_mod_cast (by omega : num % den * 2 = 1 * den)
    rw [if_neg (by omega), if_neg (by omega), half]
    exact halfEven_tie _
  · have half : 1 / 2 < ((num % den : Nat) : ℚ) / den := by
      rw [div_lt_div_iff₀ two_pos above]
      exact_mod_cast (by omega : 1 * den < num % den * 2)
    left
    rw [if_neg (by omega), if_pos up, abs_lt]
    push_cast
    constructor <;> linarith

theorem roundHalfEven_eq_iff {num den n : Nat} (positive : 0 < den) :
    roundHalfEven num den = n ↔ HalfEven (num / den) n := by
  constructor
  · rintro rfl
    exact halfEven_roundHalfEven num positive
  · exact (halfEven_roundHalfEven num positive).unique

theorem roundHalfEven_le {num den n : Nat} (positive : 0 < den) (bound : num ≤ n * den) :
    roundHalfEven num den ≤ n := by
  have above : (0 : ℚ) < den := mod_cast positive
  have below : (num : ℚ) / den ≤ n := by
    rw [div_le_iff₀ above]
    exact_mod_cast bound
  have near := (abs_le.mp (halfEven_roundHalfEven num positive).error).2
  have : (roundHalfEven num den : ℚ) < (n + 1 : Nat) := by
    push_cast
    linarith
  exact Nat.lt_succ_iff.mp (mod_cast this)

theorem le_roundHalfEven {num den n : Nat} (positive : 0 < den) (bound : n * den ≤ num) :
    n ≤ roundHalfEven num den := by
  have above : (0 : ℚ) < den := mod_cast positive
  have reached : (n : ℚ) ≤ num / den := by
    rw [le_div_iff₀ above]
    exact_mod_cast bound
  have near := (abs_le.mp (halfEven_roundHalfEven num positive).error).1
  have : (n : ℚ) < (roundHalfEven num den + 1 : Nat) := by
    push_cast
    linarith
  exact Nat.lt_succ_iff.mp (mod_cast this)

theorem roundHalfEven_eq_of_closer {num num' den : Nat} (positive : 0 < den)
    (closer : |(roundHalfEven num den : ℚ) - num' / den| ≤
      |(roundHalfEven num den : ℚ) - num / den|) :
    roundHalfEven num' den = roundHalfEven num den := by
  rw [roundHalfEven_eq_iff positive]
  rcases halfEven_roundHalfEven num positive with near | ⟨tie, even⟩
  · exact Or.inl (closer.trans_lt near)
  · rcases (closer.trans_eq tie).lt_or_eq with near | tie'
    · exact Or.inl near
    · exact Or.inr ⟨tie', even⟩

namespace BinaryFormat

variable {f : BinaryFormat}

theorem hidden_pos : 0 < f.hidden := Nat.two_pow_pos f.fractionBits

/-- A magnitude of at most `fractionBits + 1` bits, scaled by a power of two. -/
theorem units_mul_add {shift r : Nat} (high : r ≤ 2 * f.hidden)
    (normal : shift = 0 ∨ f.hidden ≤ r) : f.units (shift * f.hidden + r) = r * 2 ^ shift := by
  have positive : 0 < f.hidden := hidden_pos
  rcases Nat.lt_or_ge r f.hidden with small | large
  · obtain rfl : shift = 0 := normal.resolve_right (by omega)
    rw [Nat.zero_mul, Nat.zero_add, units, if_pos small, Nat.pow_zero, Nat.mul_one]
  · obtain ⟨rest, rfl⟩ := Nat.exists_eq_add_of_le large
    have code : shift * f.hidden + (f.hidden + rest) = rest + (shift + 1) * f.hidden := by ring
    rw [code, units, if_neg (by rw [← code]; omega), Nat.add_mul_mod_self_right,
      Nat.add_mul_div_right _ _ positive]
    show _ * 2 ^ _ = _
    rcases Nat.lt_or_ge rest f.hidden with within | beyond
    · rw [Nat.mod_eq_of_lt within, Nat.div_eq_of_lt within]
      congr 2
      omega
    · obtain rfl : rest = f.hidden := by omega
      rw [Nat.mod_self, Nat.div_self positive, show 1 + (shift + 1) - 1 = shift + 1 by omega,
        Nat.pow_succ]
      ring

theorem exists_units_eq (f : BinaryFormat) (code : Nat) :
    ∃ shift r, code = shift * f.hidden + r ∧ r < 2 * f.hidden ∧ (shift = 0 ∨ f.hidden ≤ r) ∧
      f.units code = r * 2 ^ shift := by
  have split := Nat.div_add_mod' code f.hidden
  have rest := Nat.mod_lt code (hidden_pos (f := f))
  cases places : code / f.hidden with
  | zero =>
    rw [places] at split
    have same : code = 0 * f.hidden + code := by omega
    have small : code < f.hidden := by omega
    have normal : 0 = 0 ∨ f.hidden ≤ code := Or.inl rfl
    have scaled := units_mul_add (by omega : code ≤ 2 * f.hidden) normal
    exact ⟨0, code, same, by omega, normal, by rwa [← same] at scaled⟩
  | succ shift =>
    rw [places, Nat.succ_mul] at split
    have same : code = shift * f.hidden + (f.hidden + code % f.hidden) := by omega
    refine ⟨shift, f.hidden + code % f.hidden, same, by omega, Or.inr (by omega), ?_⟩
    calc f.units code = f.units (shift * f.hidden + (f.hidden + code % f.hidden)) := by rw [← same]
      _ = _ := units_mul_add (by omega) (Or.inr (by omega))

theorem units_strictMono (f : BinaryFormat) : StrictMono f.units := by
  apply strictMono_nat_of_lt_succ
  intro code
  obtain ⟨shift, r, same, high, normal, scaled⟩ := f.exists_units_eq code
  have next : f.units (code + 1) = (r + 1) * 2 ^ shift := by
    rw [same, Nat.add_assoc]
    exact units_mul_add (by omega) (normal.imp_right (by omega))
  rw [scaled, next]
  exact Nat.mul_lt_mul_of_pos_right (Nat.lt_succ_self r) (Nat.two_pow_pos shift)

theorem units_lt_or_dvd (f : BinaryFormat) (code shift : Nat) :
    (0 < shift ∧ f.units code < f.hidden * 2 ^ shift) ∨ 2 ^ shift ∣ f.units code := by
  obtain ⟨places, r, -, high, -, scaled⟩ := f.exists_units_eq code
  rw [scaled]
  rcases Nat.lt_or_ge places shift with below | above
  · refine Or.inl ⟨by omega, ?_⟩
    calc r * 2 ^ places < 2 * f.hidden * 2 ^ places :=
          Nat.mul_lt_mul_of_pos_right high (Nat.two_pow_pos places)
      _ = f.hidden * 2 ^ (places + 1) := by ring
      _ ≤ f.hidden * 2 ^ shift := Nat.mul_le_mul_left _ (Nat.pow_le_pow_right two_pos below)
  · exact Or.inr (Dvd.dvd.mul_left (pow_dvd_pow 2 above) r)

/-- The magnitude with the code is the nearest to a number of units; of two equally near it is the
one with the even code. -/
structure IsNearest (f : BinaryFormat) (code : Nat) (q : ℚ) : Prop where
  closest (other : Nat) : |(f.units code : ℚ) - q| ≤ |(f.units other : ℚ) - q|
  even {other : Nat} : other ≠ code → |(f.units code : ℚ) - q| = |(f.units other : ℚ) - q| →
    Even code

theorem IsNearest.le_of_le {code other : Nat} {q : ℚ} (h : f.IsNearest code q)
    (bound : q ≤ f.units other) : code ≤ other := by
  by_contra! above
  have higher : (f.units other : ℚ) < f.units code := mod_cast f.units_strictMono above
  have near := h.closest other
  rw [abs_of_nonneg (by linarith), abs_of_nonneg (by linarith)] at near
  linarith

theorem IsNearest.le_of_ge {code other : Nat} {q : ℚ} (h : f.IsNearest code q)
    (bound : (f.units other : ℚ) ≤ q) : other ≤ code := by
  by_contra! below
  have lower : (f.units code : ℚ) < f.units other := mod_cast f.units_strictMono below
  have near := h.closest other
  rw [abs_of_nonpos (by linarith), abs_of_nonpos (by linarith)] at near
  linarith

/-- Between two magnitudes that are equally near lies no third one, so they are neighbours and only
one of them is even. -/
theorem IsNearest.unique {code other : Nat} {q : ℚ} (h : f.IsNearest code q)
    (h' : f.IsNearest other q) : code = other := by
  wlog below : code < other generalizing code other
  · rcases Nat.lt_or_ge other code with above | same
    · exact (this h' h above).symm
    · omega
  have equal := le_antisymm (h.closest other) (h'.closest code)
  have even : Even code := h.even below.ne' equal
  have evenOther : Even other := h'.even below.ne equal.symm
  have inside : code + 1 < other := by
    rw [Nat.even_iff] at even evenOther
    omega
  have low : (f.units code : ℚ) < f.units (code + 1) := mod_cast f.units_strictMono (by omega)
  have high : (f.units (code + 1) : ℚ) < f.units other := mod_cast f.units_strictMono inside
  have middle : (f.units code : ℚ) + f.units other = 2 * q := by
    rcases abs_eq_abs.mp equal with same | opposite <;> linarith
  have nearer := h.closest (code + 1)
  rw [abs_of_nonpos (by linarith), le_abs] at nearer
  rcases nearer with _ | _ <;> linarith

theorem even_hidden (fraction : f.fractionBits ≠ 0) : Even f.hidden :=
  (even_two).pow_of_ne_zero fraction

theorem abs_sub_eq_mul (m num : Nat) {den : Nat} (positive : 0 < den) (shift : Nat) :
    |((m * 2 ^ shift : Nat) : ℚ) - num / den| =
      |(m : ℚ) - num / (den * 2 ^ shift : Nat)| * 2 ^ shift := by
  have power : (0 : ℚ) < 2 ^ shift := by positivity
  have denominator : (den : ℚ) ≠ 0 := mod_cast positive.ne'
  calc |((m * 2 ^ shift : Nat) : ℚ) - num / den|
      = |((m : ℚ) - num / (den * 2 ^ shift : Nat)) * 2 ^ shift| := by
        push_cast
        field_simp
    _ = |(m : ℚ) - num / (den * 2 ^ shift : Nat)| * 2 ^ shift := by rw [abs_mul, abs_of_pos power]

section Steps

variable {num den shift : Nat} (positive : 0 < den)

include positive

theorem abs_sub_lt_of_lt_binade {u : Nat} (reached : f.hidden * (den * 2 ^ shift) ≤ num)
    (below : u < f.hidden * 2 ^ shift) :
    |((roundHalfEven num (den * 2 ^ shift) * 2 ^ shift : Nat) : ℚ) - num / den| <
      |(u : ℚ) - num / den| := by
  have power : (0 : ℚ) < 2 ^ shift := by positivity
  have inside : ((f.hidden * 2 ^ shift : Nat) : ℚ) ≤ num / den := by
    rw [le_div_iff₀ (mod_cast positive)]
    exact_mod_cast (by rw [Nat.mul_assoc, Nat.mul_comm _ den]; exact reached)
  have lower : (u : ℚ) < (f.hidden * 2 ^ shift : Nat) := mod_cast below
  calc |((roundHalfEven num (den * 2 ^ shift) * 2 ^ shift : Nat) : ℚ) - num / den|
      = |(roundHalfEven num (den * 2 ^ shift) : ℚ) - num / (den * 2 ^ shift : Nat)| * 2 ^ shift :=
        abs_sub_eq_mul _ num positive shift
    _ ≤ |(f.hidden : ℚ) - num / (den * 2 ^ shift : Nat)| * 2 ^ shift := by
        have rounded := halfEven_roundHalfEven num (Nat.mul_pos positive (Nat.two_pow_pos shift))
        exact mul_le_mul_of_nonneg_right (rounded.abs_sub_le f.hidden) power.le
    _ = |((f.hidden * 2 ^ shift : Nat) : ℚ) - num / den| :=
        (abs_sub_eq_mul f.hidden num positive shift).symm
    _ < |(u : ℚ) - num / den| := by
        rw [abs_of_nonpos (by linarith), abs_of_nonpos (by linarith)]
        linarith

theorem closest_units (normal : shift = 0 ∨ f.hidden * (den * 2 ^ shift) ≤ num) (other : Nat) :
    let r := roundHalfEven num (den * 2 ^ shift)
    |((r * 2 ^ shift : Nat) : ℚ) - num / den| < |(f.units other : ℚ) - num / den| ∨
      f.units other = r * 2 ^ shift ∨
      |((r * 2 ^ shift : Nat) : ℚ) - num / den| = |(f.units other : ℚ) - num / den| ∧ Even r := by
  intro r
  rcases f.units_lt_or_dvd other shift with ⟨shifted, below⟩ | ⟨m, multiple⟩
  · exact Or.inl (abs_sub_lt_of_lt_binade positive (normal.resolve_left shifted.ne') below)
  · rw [multiple, Nat.mul_comm _ m, abs_sub_eq_mul _ num positive, abs_sub_eq_mul m num positive]
    have rounded := halfEven_roundHalfEven num (Nat.mul_pos positive (Nat.two_pow_pos shift))
    rcases rounded.closest m with less | same | ⟨tie, even⟩
    · exact Or.inl (mul_lt_mul_of_pos_right less (by positivity))
    · exact Or.inr (Or.inl (by rw [same]))
    · exact Or.inr (Or.inr ⟨by rw [tie], even⟩)

theorem isNearest_of_roundHalfEven (fraction : f.fractionBits ≠ 0)
    (high : roundHalfEven num (den * 2 ^ shift) ≤ 2 * f.hidden)
    (normal : shift = 0 ∨ f.hidden * (den * 2 ^ shift) ≤ num) :
    f.IsNearest (shift * f.hidden + roundHalfEven num (den * 2 ^ shift)) (num / den) := by
  have least := normal.imp_right (le_roundHalfEven (Nat.mul_pos positive (Nat.two_pow_pos shift)))
  have scaled := units_mul_add high least
  constructor
  · intro other
    rw [scaled]
    rcases closest_units positive normal other with less | same | ⟨tie, -⟩
    · exact less.le
    · rw [same]
    · exact tie.le
  · intro other different equal
    rw [scaled] at equal
    rcases closest_units positive normal other with less | same | ⟨-, even⟩
    · exact absurd equal less.ne
    · exact absurd (f.units_strictMono.injective (same.trans scaled.symm)) different
    · exact ((even_hidden fraction).mul_left shift).add even

end Steps

section Scale

variable (f) (num : Nat) {den : Nat} (positive : 0 < den)

include positive

theorem roundHalfEven_le_two_hidden :
    roundHalfEven num (den * 2 ^ ((num / den).log2 - f.fractionBits)) ≤ 2 * f.hidden := by
  apply roundHalfEven_le (Nat.mul_pos positive (Nat.two_pow_pos _))
  have digits : num / den < 2 ^ ((num / den).log2 + 1) := Nat.lt_log2_self
  have bits : 2 ^ ((num / den).log2 + 1) ≤
      2 ^ (1 + f.fractionBits + ((num / den).log2 - f.fractionBits)) :=
    Nat.pow_le_pow_right two_pos (by omega)
  have less := Nat.lt_of_lt_of_le digits bits
  rw [Nat.div_lt_iff_lt_mul positive] at less
  refine less.le.trans_eq ?_
  rw [hidden, Nat.pow_eq, Nat.pow_add, Nat.pow_add]
  ring

theorem log2_eq_zero_or_hidden_le :
    (num / den).log2 - f.fractionBits = 0 ∨
      f.hidden * (den * 2 ^ ((num / den).log2 - f.fractionBits)) ≤ num := by
  rcases Nat.eq_zero_or_pos ((num / den).log2 - f.fractionBits) with flat | shifted
  · exact Or.inl flat
  · right
    have nonzero : num / den ≠ 0 := by
      intro zero
      rw [zero] at shifted
      simp at shifted
    have least : 2 ^ (num / den).log2 ≤ num / den := Nat.log2_self_le nonzero
    rw [Nat.le_div_iff_mul_le positive] at least
    refine Eq.trans_le ?_ least
    rw [hidden, Nat.pow_eq, Nat.mul_comm den, ← Nat.mul_assoc, ← Nat.pow_add]
    congr 2
    omega

end Scale

theorem exists_isNearest (fraction : f.fractionBits ≠ 0) (num : Nat) {den : Nat}
    (positive : 0 < den) :
    ∃ code, f.nearest num den = min code f.infinityCode ∧ f.IsNearest code (num / den) :=
  ⟨_, rfl, isNearest_of_roundHalfEven positive fraction
    (f.roundHalfEven_le_two_hidden num positive) (f.log2_eq_zero_or_hidden_le num positive)⟩

/-- A number of at most `fractionBits + 1` bits, scaled by a power of two, is a magnitude. -/
theorem exists_units_eq_mul_pow (f : BinaryFormat) {r : Nat} (few : r ≤ 2 * f.hidden)
    (shift : Nat) : ∃ code, f.units code = r * 2 ^ shift := by
  induction shift generalizing r with
  | zero => exact ⟨_, units_mul_add few (Or.inl rfl)⟩
  | succ shift ih =>
    rcases Nat.lt_or_ge r f.hidden with small | normal
    · obtain ⟨code, scaled⟩ := ih (r := 2 * r) (by omega)
      refine ⟨code, scaled.trans ?_⟩
      ring
    · exact ⟨_, units_mul_add few (Or.inr normal)⟩

/-- The nearest magnitude is off by half a unit, or by half of the last place of the number. -/
theorem IsNearest.error {code : Nat} {q : ℚ} (nearest : f.IsNearest code q) (amount : 0 ≤ q) :
    |(f.units code : ℚ) - q| ≤ q / (2 * f.hidden) + 1 / 2 := by
  obtain ⟨num, den, positive, rfl⟩ : ∃ num den : Nat, 0 < den ∧ q = num / den := by
    refine ⟨q.num.toNat, q.den, q.pos, ?_⟩
    have whole : ((q.num.toNat : Int) : ℚ) = q.num := by
      rw [Int.toNat_of_nonneg (Rat.num_nonneg.mpr amount)]
    rw [← Int.cast_natCast, whole, Rat.num_div_den]
  have above : (0 : ℚ) < den := mod_cast positive
  have nonneg : (0 : ℚ) ≤ num / den / (2 * f.hidden) := by positivity
  obtain ⟨shift, r, few, normal, rounded⟩ : ∃ shift r, r ≤ 2 * f.hidden ∧
      (shift = 0 ∨ f.hidden * (den * 2 ^ shift) ≤ num) ∧
      HalfEven (num / (den * 2 ^ shift : Nat)) r :=
    ⟨_, _, f.roundHalfEven_le_two_hidden num positive, f.log2_eq_zero_or_hidden_le num positive,
      halfEven_roundHalfEven num (Nat.mul_pos positive (Nat.two_pow_pos _))⟩
  obtain ⟨other, scaled⟩ := f.exists_units_eq_mul_pow few shift
  have power : (0 : ℚ) < 2 ^ shift := by positivity
  have step : |(f.units other : ℚ) - num / den| ≤ 1 / 2 * 2 ^ shift := by
    rw [scaled, abs_sub_eq_mul r num positive]
    exact mul_le_mul_of_nonneg_right rounded.error power.le
  refine (nearest.closest other).trans (step.trans ?_)
  rcases normal with rfl | normal
  · rw [pow_zero, mul_one]
    linarith
  · have hiddenPos : (0 : ℚ) < f.hidden := mod_cast hidden_pos
    have place : (2 : ℚ) ^ shift ≤ num / den / f.hidden := by
      rw [le_div_iff₀ hiddenPos, le_div_iff₀ above]
      calc (2 : ℚ) ^ shift * f.hidden * den = (f.hidden * (den * 2 ^ shift) : Nat) := by
            push_cast
            ring
        _ ≤ num := mod_cast normal
    have half : (num : ℚ) / den / (2 * f.hidden) = 1 / 2 * (num / den / f.hidden) := by
      field_simp
    linarith

theorem IsNearest.mono {code code' : Nat} {q q' : ℚ} (h : f.IsNearest code q)
    (h' : f.IsNearest code' q') (le : q ≤ q') : code ≤ code' := by
  by_contra! above
  have higher : (f.units code' : ℚ) < f.units code := mod_cast f.units_strictMono above
  have near := sq_le_sq.mpr (h.closest code')
  have near' := sq_le_sq.mpr (h'.closest code)
  have same : q = q' := by nlinarith
  subst same
  exact absurd (h.unique h') above.ne'

end BinaryFormat

end SpectrumViewer
