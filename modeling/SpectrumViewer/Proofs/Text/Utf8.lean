import Mathlib.Tactic.Common
import SpectrumViewer.Text.Utf8

set_option autoImplicit false

/-!
Texts come back from their octets: what is encoded is decoded again without a fault
(`strict?_encode`).
-/

namespace SpectrumViewer

namespace Utf8

theorem toList_loop_eq (bs : ByteArray) (i : Nat) (r : List UInt8) :
    ByteArray.toList.loop bs i r = r.reverse ++ bs.data.toList.drop i := by
  fun_induction ByteArray.toList.loop bs i r with
  | case1 i r h ih =>
    have inside : i < bs.data.toList.length := by simpa using h
    rw [ih, List.drop_eq_getElem_cons inside]
    simp [ByteArray.get!, h]
  | case2 i r h =>
    rw [List.drop_eq_nil_of_le (by simpa using Nat.le_of_not_lt h)]
    simp

theorem encode_ofList (cs : List Char) :
    encode (String.ofList cs) = cs.flatMap String.utf8EncodeChar := by
  have octets : (String.ofList cs).toUTF8 = (cs.flatMap String.utf8EncodeChar).toByteArray := rfl
  rw [encode, octets, ByteArray.toList, toList_loop_eq, List.toList_data_toByteArray]
  rfl

theorem decodeFrom_cons (state : Option Pending) (b : UInt8) (bs : List UInt8) :
    decodeFrom state (b :: bs) =
      (step state b.toNat).1 ++ decodeFrom (step state b.toNat).2 bs := by
  rw [decodeFrom]

variable {owed low high bits : Nat} {n : Nat} {rest : List UInt8}

theorem decodeFrom_within (byte : n < 256) (least : low ≤ n) (greatest : n ≤ high)
    (more : owed ≠ 1) :
    decodeFrom (some ⟨owed, low, high, bits⟩) (UInt8.ofNat n :: rest) =
      decodeFrom (some ⟨owed - 1, 0x80, 0xBF, bits * 64 + n % 64⟩) rest := by
  rw [decodeFrom_cons, UInt8.toNat_ofNat_of_lt' byte, step]
  simp [least, greatest, more]

theorem decodeFrom_last (byte : n < 256) (least : low ≤ n) (greatest : n ≤ high) :
    decodeFrom (some ⟨1, low, high, bits⟩) (UInt8.ofNat n :: rest) =
      some (Char.ofNat (bits * 64 + n % 64)) :: decodeFrom none rest := by
  rw [decodeFrom_cons, UInt8.toNat_ofNat_of_lt' byte, step]
  simp [least, greatest]

theorem decodeFrom_opened {p : Pending} (byte : n < 256) (high : 0x80 ≤ n)
    (opens : opened? n = some p) :
    decodeFrom none (UInt8.ofNat n :: rest) = decodeFrom (some p) rest := by
  rw [decodeFrom_cons, UInt8.toNat_ofNat_of_lt' byte, step, start, if_neg (by omega), opens]
  rfl

theorem opened?_two {v : Nat} (least : 0x80 ≤ v) (small : v < 0x800) :
    opened? (v / 64 % 32 + 192) = some ⟨1, 0x80, 0xBF, v / 64⟩ := by
  have bits : v / 64 % 32 + 192 - 0xC0 = v / 64 := by omega
  rw [opened?, if_pos (by omega), bits]

theorem exists_opened?_three {v : Nat} (least : 0x800 ≤ v)
    (valid : v < 0xD800 ∨ 0xDFFF < v ∧ v < 0x10000) :
    ∃ low high, opened? (v / 4096 % 16 + 224) = some ⟨2, low, high, v / 4096⟩ ∧
      low ≤ v / 64 % 64 + 128 ∧ v / 64 % 64 + 128 ≤ high := by
  by_cases overlong : v / 4096 = 0
  · rw [overlong]
    exact ⟨_, _, rfl, by omega, by omega⟩
  by_cases surrogate : v / 4096 = 13
  · rw [surrogate]
    exact ⟨_, _, rfl, by omega, by omega⟩
  · have bits : v / 4096 % 16 + 224 - 0xE0 = v / 4096 := by omega
    rw [opened?, if_neg (by omega), if_neg (by omega), if_neg (by omega), if_pos (by omega), bits]
    exact ⟨_, _, rfl, by omega, by omega⟩

theorem exists_opened?_four {v : Nat} (least : 0x10000 ≤ v) (valid : v < 0x110000) :
    ∃ low high, opened? (v / 262144 % 8 + 240) = some ⟨3, low, high, v / 262144⟩ ∧
      low ≤ v / 4096 % 64 + 128 ∧ v / 4096 % 64 + 128 ≤ high := by
  by_cases overlong : v / 262144 = 0
  · rw [overlong]
    exact ⟨_, _, rfl, by omega, by omega⟩
  by_cases beyond : v / 262144 = 4
  · rw [beyond]
    exact ⟨_, _, rfl, by omega, by omega⟩
  · have bits : v / 262144 % 8 + 240 - 0xF0 = v / 262144 := by omega
    rw [opened?, if_neg (by omega), if_neg (by omega), if_neg (by omega), if_neg (by omega),
      if_neg (by omega), if_pos (by omega), bits]
    exact ⟨_, _, rfl, by omega, by omega⟩

/-- The octets of a character are read as it. -/
theorem decodeFrom_utf8EncodeChar (c : Char) (rest : List UInt8) :
    decodeFrom none (String.utf8EncodeChar c ++ rest) = some c :: decodeFrom none rest := by
  have valid : c.toNat < 0xD800 ∨ 0xDFFF < c.toNat ∧ c.toNat < 0x110000 := c.valid
  have same {n : Nat} (h : n = c.toNat) : some (Char.ofNat n) = some c :=
    congrArg some (h ▸ Char.ofNat_toNat c)
  have code : c.val.toNat = c.toNat := rfl
  rw [String.utf8EncodeChar, code]
  generalize c.toNat = v at valid same
  by_cases one : v ≤ 127
  · have byte : v < 256 := by omega
    rw [if_pos one, List.singleton_append, decodeFrom_cons, UInt8.toNat_ofNat_of_lt' byte, step,
      start, if_pos (by omega), same rfl, List.singleton_append]
  rw [if_neg one]
  by_cases two : v ≤ 2047
  · rw [if_pos two, List.cons_append, List.singleton_append,
      decodeFrom_opened (by omega) (by omega) (opened?_two (by omega) (by omega)),
      decodeFrom_last (by omega) (by omega) (by omega), same (by omega)]
  rw [if_neg two]
  by_cases three : v ≤ 65535
  · obtain ⟨low, high, opens, least, greatest⟩ :=
      exists_opened?_three (v := v) (by omega) (by omega)
    rw [if_pos three, List.cons_append, List.cons_append, List.singleton_append,
      decodeFrom_opened (by omega) (by omega) opens,
      decodeFrom_within (by omega) least greatest (by decide),
      decodeFrom_last (by omega) (by omega) (by omega), same (by omega)]
  rw [if_neg three]
  obtain ⟨low, high, opens, least, greatest⟩ := exists_opened?_four (v := v) (by omega) (by omega)
  rw [List.cons_append, List.cons_append, List.cons_append, List.singleton_append,
    decodeFrom_opened (by omega) (by omega) opens,
    decodeFrom_within (by omega) least greatest (by decide),
    decodeFrom_within (by omega) (by omega) (by omega) (by decide),
    decodeFrom_last (by omega) (by omega) (by omega), same (by omega)]

theorem strict?_encode (cs : List Char) : strict? (encode (String.ofList cs)) = some cs := by
  have decoded : decodeFrom none (cs.flatMap String.utf8EncodeChar) = cs.map some := by
    induction cs with
    | nil => rfl
    | cons c cs ih => rw [List.flatMap_cons, decodeFrom_utf8EncodeChar, ih, List.map_cons]
  rw [strict?, decode, encode_ofList, decoded, List.mapM_map]
  exact (List.mapM_pure (m := Option) (f := id)).trans (congrArg some (List.map_id cs))

end Utf8

end SpectrumViewer
