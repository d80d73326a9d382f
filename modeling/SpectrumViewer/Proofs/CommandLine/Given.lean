import SpectrumViewer.CommandLine.Parser
import SpectrumViewer.Proofs.Number.Grammar

set_option autoImplicit false

/-!
What is given on a command line: switches, each with a value, one after the other. They are taken
in exactly if none is given twice and each value is one for its switch
(`Arguments.takeAll?_eq_ok_iff`), and then each part of the arguments is as its own switch puts it
in, in whatever order they came.
-/

namespace SpectrumViewer

namespace CommandLine

open Decimal (SignText AllDigits number)

/-- A whole number as it is written, with the sign in front of it. -/
def NumberText (text : String) (negative : Bool) (n : Nat) : Prop :=
  ∃ sign digits, text.toList = sign ++ digits ∧ SignText sign negative ∧ AllDigits digits ∧
    digits ≠ [] ∧ number digits = n

/-- The texts of a baud rate. Only a zero may have a minus. -/
def RateText (text : String) (rate : UInt32) : Prop :=
  ∃ negative, NumberText text negative rate.toNat ∧ (negative = true → rate = 0)

/-- The texts of an interval. -/
def IntervalText (text : String) (interval : UInt64) : Prop :=
  NumberText text false interval.toNat

/-- A switch as it is given, with its value; that of a switch without one does not matter. -/
structure Given where
  switch : Switch
  value : String
  deriving DecidableEq, Repr

/-- Whether the value is one for the switch. Help and version are asked for, not given. -/
def Given.Proper (g : Given) : Prop :=
  match g.switch with
  | .baud => ∃ rate, RateText g.value rate
  | .frameInterval => ∃ interval, IntervalText g.value interval
  | .replay | .config => g.value ≠ ""
  | .port | .demo | .listPorts | .enableLogs => True
  | .help | .version => False

/-- No switch is given twice, and every value is one for its switch. -/
structure Proper (gs : List Given) : Prop where
  distinct : (gs.map Given.switch).Nodup
  values : ∀ g ∈ gs, g.Proper

end CommandLine

namespace Arguments

open CommandLine
open Decimal (SignText AllDigits number)

theorem digits?_eq_some_iff {cs : List Char} {n : Nat} :
    digits? cs = some n ↔ AllDigits cs ∧ cs ≠ [] ∧ number cs = n := by
  have value : Decimal.digitsValue cs = number cs := rfl
  rw [digits?, Option.ite_none_right_eq_some, List.all_eq_true, value, Option.some_inj]
  tauto

theorem baudRate?_eq_some_iff {text : String} {rate : UInt32} :
    baudRate? text = some rate ↔ RateText text rate := by
  simp only [baudRate?, Option.map_eq_some_iff, Option.filter_eq_some_iff, digits?_eq_some_iff,
    decide_eq_true_eq]
  constructor
  · rintro ⟨n, ⟨⟨digits, nonempty, value⟩, small, zero⟩, rfl⟩
    obtain ⟨sign, signed, split⟩ := Decimal.exists_signText text.toList
    have word : (UInt32.ofNat n).toNat = n := UInt32.toNat_ofNat_of_lt small
    refine ⟨_, ⟨sign, _, split, signed, digits, nonempty, value.trans word.symm⟩, fun minus => ?_⟩
    rw [zero minus]
    rfl
  · rintro ⟨negative, ⟨sign, digits, written, signed, all, nonempty, value⟩, zero⟩
    rw [written, Decimal.splitSign_append signed all.unsigned]
    refine ⟨_, ⟨⟨all, nonempty, value⟩, rate.toNat_lt, fun minus => ?_⟩, UInt32.ofNat_toNat⟩
    rw [zero minus]
    rfl

theorem word?_eq_some_iff {text : String} {interval : UInt64} :
    word? text = some interval ↔ IntervalText text interval := by
  simp only [word?, Option.map_eq_some_iff, Option.filter_eq_some_iff, digits?_eq_some_iff,
    decide_eq_true_eq]
  constructor
  · rintro ⟨n, ⟨⟨digits, nonempty, value⟩, small⟩, rfl⟩
    have word : (UInt64.ofNat n).toNat = n := UInt64.toNat_ofNat_of_lt small
    rw [IntervalText, word]
    split at digits
    · next plus =>
      obtain ⟨rest, shape⟩ := List.head?_eq_some_iff.mp plus
      rw [if_pos plus, shape] at nonempty value
      rw [shape] at digits
      exact ⟨['+'], rest, shape, .plus, digits, nonempty, value⟩
    · next plain =>
      rw [if_neg plain] at nonempty value
      exact ⟨[], text.toList, rfl, .absent, digits, nonempty, value⟩
  · rintro ⟨sign, digits, written, signed, all, nonempty, value⟩
    have unsigned : (if text.toList.head? = some '+' then text.toList.tail else text.toList) =
        digits := by
      rw [written]
      cases signed with
      | plus => rfl
      | absent => exact if_neg fun plus => (all.unsigned '+' plus).1 rfl
    rw [unsigned]
    exact ⟨_, ⟨⟨all, nonempty, value⟩, interval.toNat_lt⟩, UInt64.ofNat_toNat⟩

/-- The arguments with one more switch. -/
def put (a : Arguments) (g : Given) : Arguments :=
  match g.switch with
  | .port => { a with port := some g.value }
  | .baud => { a with baud := baudRate? g.value }
  | .replay => { a with replay := some g.value }
  | .demo => { a with demo := true }
  | .frameInterval => { a with frameInterval := word? g.value }
  | .listPorts => { a with listPorts := true }
  | .config => { a with config := some g.value }
  | .enableLogs => { a with enableLogs := true }
  | .help | .version => a

/-- The arguments that give these switches. -/
def given (gs : List Given) : Arguments := gs.foldl put empty

theorem given_concat (gs : List Given) (g : Given) : given (gs ++ [g]) = (given gs).put g := by
  rw [given, List.foldl_append]
  rfl

theorem bind_eq_ok_iff {α β : Type} {x : Except Reply α} {f : α → Except Reply β} {b : β} :
    (x >>= f) = .ok b ↔ ∃ a, x = .ok a ∧ f a = .ok b := by
  cases x with
  | error _ => exact iff_of_false (by rintro ⟨⟩) (by rintro ⟨a, ⟨⟩, -⟩)
  | ok a => exact ⟨fun h => ⟨a, rfl, h⟩, by rintro ⟨_, ⟨⟩, h⟩; exact h⟩

theorem formed_bind_eq_ok_iff {α : Type} {x : Option α} {f : Option α → Arguments}
    {b : Arguments} :
    (formed x >>= fun n => pure (f (some n))) = .ok b ↔ (∃ n, x = some n) ∧ b = f x := by
  cases x with
  | none => exact iff_of_false (by rintro ⟨⟩) (by rintro ⟨⟨n, ⟨⟩⟩, -⟩)
  | some n => exact ⟨fun h => ⟨⟨n, rfl⟩, (Except.ok.inj h).symm⟩, by rintro ⟨-, rfl⟩; rfl⟩

theorem path?_bind_eq_ok_iff {text : String} {f : String → Arguments} {b : Arguments} :
    (path? text >>= fun path => pure (f path)) = .ok b ↔ text ≠ "" ∧ b = f text := by
  by_cases blank : text = ""
  · rw [path?, if_pos blank]
    exact iff_of_false (by rintro ⟨⟩) fun h => h.1 blank
  · rw [path?, if_neg blank]
    exact ⟨fun h => ⟨blank, (Except.ok.inj h).symm⟩, by rintro ⟨-, rfl⟩; rfl⟩

/-- A switch is taken in exactly if it was not given before and its value is one for it. -/
theorem take?_eq_ok_iff {a b : Arguments} {g : Given} :
    a.take? g.switch g.value = .ok b ↔
      a.isGiven g.switch = false ∧ g.Proper ∧ b = a.put g := by
  obtain ⟨s, value⟩ := g
  cases before : a.isGiven s with
  | true =>
    have refused : a.take? s value = .error (.refused .conflict) := if_pos before
    rw [refused]
    exact iff_of_false (by rintro ⟨⟩) (by rintro ⟨⟨⟩, -⟩)
  | false =>
    have unused : ¬a.isGiven s = true := by rw [before]; decide
    rw [eq_true (rfl : false = false), true_and]
    cases s with
    | port | demo | listPorts | enableLogs =>
      rw [take?, if_neg unused]
      exact ⟨fun h => ⟨trivial, (Except.ok.inj h).symm⟩, fun h => congrArg Except.ok h.2.symm⟩
    | baud =>
      rw [take?, if_neg unused]
      refine (formed_bind_eq_ok_iff (f := fun rate => { a with baud := rate })).trans ?_
      exact and_congr_left fun _ => exists_congr fun _ => baudRate?_eq_some_iff
    | frameInterval =>
      rw [take?, if_neg unused]
      refine (formed_bind_eq_ok_iff (f := fun interval => { a with frameInterval := interval })).trans
        ?_
      exact and_congr_left fun _ => exists_congr fun _ => word?_eq_some_iff
    | replay | config =>
      rw [take?, if_neg unused]
      exact path?_bind_eq_ok_iff
    | help | version =>
      rw [take?, if_neg unused]
      exact iff_of_false (by rintro ⟨⟩) fun h => h.1

section Given

variable {gs : List Given} {s : Switch}

/-- Only one switch puts in a part of the arguments. -/
def Owned {β : Type} (f : Arguments → β) (s : Switch) : Prop :=
  ∀ a g, f (put a g) = if g.switch = s then f (empty.put g) else f a

theorem owned_isGiven (s : Switch) : Owned (fun a => a.isGiven s) s := by
  rintro a ⟨switch, value⟩
  cases switch <;> cases s <;> rfl

theorem owned_port : Owned port .port := by
  rintro a ⟨switch, value⟩
  cases switch <;> rfl

theorem owned_baud : Owned baud .baud := by
  rintro a ⟨switch, value⟩
  cases switch <;> rfl

theorem owned_replay : Owned replay .replay := by
  rintro a ⟨switch, value⟩
  cases switch <;> rfl

theorem owned_frameInterval : Owned frameInterval .frameInterval := by
  rintro a ⟨switch, value⟩
  cases switch <;> rfl

theorem isGiven_put_self {g : Given} (proper : g.Proper) :
    (empty.put g).isGiven g.switch = true := by
  obtain ⟨s, value⟩ := g
  cases s with
  | port | replay | demo | listPorts | config | enableLogs => rfl
  | baud =>
    obtain ⟨rate, written⟩ := proper
    exact congrArg Option.isSome (baudRate?_eq_some_iff.mpr written)
  | frameInterval =>
    obtain ⟨interval, written⟩ := proper
    exact congrArg Option.isSome (word?_eq_some_iff.mpr written)
  | help | version => exact proper.elim

theorem given_of_mem {β : Type} {f : Arguments → β} (own : Owned f s)
    (distinct : (gs.map Given.switch).Nodup) {value : String} (h : ⟨s, value⟩ ∈ gs) :
    f (given gs) = f (empty.put ⟨s, value⟩) := by
  induction gs using List.reverseRecOn with
  | nil => cases h
  | append_singleton gs g ih =>
    rw [List.map_append, List.nodup_append] at distinct
    obtain ⟨before, -, apart⟩ := distinct
    rw [given_concat, own]
    rcases List.mem_append.mp h with earlier | last
    · have other : g.switch ≠ s := fun same =>
        apart s (List.mem_map_of_mem earlier) g.switch (List.mem_singleton_self _) same.symm
      rw [if_neg other, ih before earlier]
    · obtain rfl := List.mem_singleton.mp last
      exact if_pos rfl

theorem given_of_notMem {β : Type} {f : Arguments → β} (own : Owned f s)
    (h : s ∉ gs.map Given.switch) : f (given gs) = f empty := by
  induction gs using List.reverseRecOn with
  | nil => rfl
  | append_singleton gs g ih =>
    rw [List.map_append, List.mem_append, not_or] at h
    have other : g.switch ≠ s := fun same => h.2 (List.mem_singleton.mpr same.symm)
    rw [given_concat, own, if_neg other, ih h.1]

theorem given_eq_some_iff {β : Type} {f : Arguments → Option β} (own : Owned f s)
    (unset : f empty = none) (distinct : (gs.map Given.switch).Nodup) {x : β} :
    f (given gs) = some x ↔ ∃ value, ⟨s, value⟩ ∈ gs ∧ f (empty.put ⟨s, value⟩) = some x := by
  constructor
  · intro h
    by_cases used : s ∈ gs.map Given.switch
    · obtain ⟨⟨_, value⟩, member, rfl⟩ := List.mem_map.mp used
      rw [given_of_mem own distinct member] at h
      exact ⟨value, member, h⟩
    · rw [given_of_notMem own used, unset] at h
      cases h
  · rintro ⟨value, member, h⟩
    rw [given_of_mem own distinct member, h]

theorem isGiven_given (proper : CommandLine.Proper gs) :
    (given gs).isGiven s = true ↔ s ∈ gs.map Given.switch := by
  constructor
  · intro h
    by_contra absent
    rw [given_of_notMem (owned_isGiven s) absent] at h
    cases s <;> cases h
  · intro h
    obtain ⟨⟨_, value⟩, member, rfl⟩ := List.mem_map.mp h
    rw [given_of_mem (owned_isGiven _) proper.distinct member]
    exact isGiven_put_self (proper.values _ member)

end Given

theorem proper_concat {gs : List Given} {g : Given} :
    CommandLine.Proper (gs ++ [g]) ↔
      CommandLine.Proper gs ∧ g.switch ∉ gs.map Given.switch ∧ g.Proper := by
  constructor
  · rintro ⟨distinct, values⟩
    rw [List.map_append, List.nodup_append] at distinct
    obtain ⟨before, -, apart⟩ := distinct
    refine ⟨⟨before, fun h member => values h (List.mem_append_left _ member)⟩, fun used => ?_,
      values g (List.mem_append_right _ (List.mem_singleton_self g))⟩
    exact apart _ used _ (List.mem_singleton_self _) rfl
  · rintro ⟨⟨distinct, values⟩, fresh, last⟩
    refine ⟨?_, fun h member => ?_⟩
    · rw [List.map_append, List.nodup_append]
      refine ⟨distinct, List.pairwise_singleton _ _, ?_⟩
      rintro _ earlier _ self rfl
      exact fresh (List.mem_singleton.mp self ▸ earlier)
    · rcases List.mem_append.mp member with earlier | self
      · exact values h earlier
      · exact List.mem_singleton.mp self ▸ last

/-- Takes in switches one after the other. -/
def takeAll? (a : Arguments) (gs : List Given) : Except Reply Arguments :=
  gs.foldlM (fun a g => a.take? g.switch g.value) a

theorem takeAll?_concat (a : Arguments) (gs : List Given) (g : Given) :
    a.takeAll? (gs ++ [g]) = a.takeAll? gs >>= fun b => b.take? g.switch g.value := by
  simp only [takeAll?, List.foldlM_append, List.foldlM_cons, List.foldlM_nil, bind_pure]

/-- Switches are taken in exactly if they are proper. -/
theorem takeAll?_eq_ok_iff {gs : List Given} {a : Arguments} :
    empty.takeAll? gs = .ok a ↔ CommandLine.Proper gs ∧ a = given gs := by
  induction gs using List.reverseRecOn generalizing a with
  | nil =>
    have nothing : CommandLine.Proper [] := ⟨List.nodup_nil, fun _ h => nomatch h⟩
    exact ⟨fun h => ⟨nothing, (Except.ok.inj h).symm⟩, by rintro ⟨-, rfl⟩; rfl⟩
  | append_singleton gs g ih =>
    have fresh (proper : CommandLine.Proper gs) :
        (given gs).isGiven g.switch = false ↔ g.switch ∉ gs.map Given.switch :=
      Bool.eq_false_iff.trans (not_congr (isGiven_given proper))
    rw [takeAll?_concat, bind_eq_ok_iff, given_concat, proper_concat]
    constructor
    · rintro ⟨b, taken, last⟩
      obtain ⟨proper, rfl⟩ := ih.mp taken
      obtain ⟨unused, value, rfl⟩ := take?_eq_ok_iff.mp last
      exact ⟨⟨proper, (fresh proper).mp unused, value⟩, rfl⟩
    · rintro ⟨⟨proper, unused, value⟩, rfl⟩
      exact ⟨given gs, ih.mpr ⟨proper, rfl⟩,
        take?_eq_ok_iff.mpr ⟨(fresh proper).mpr unused, value, rfl⟩⟩

end Arguments

end SpectrumViewer
