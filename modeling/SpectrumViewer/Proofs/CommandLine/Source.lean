import SpectrumViewer.Program
import SpectrumViewer.Proofs.CommandLine.Line

set_option autoImplicit false

/-!
The source that a command line names. A line that is read names at most one, and the viewer takes
that one as it is named; a line that names two is refused, in whatever order they stand. What is
checked in the settings is not checked again on the line: a rate of zero is refused there and taken
from here.
-/

namespace SpectrumViewer

namespace CommandLine

open Arguments (given given_eq_some_iff isGiven_given baudRate?_eq_some_iff word?_eq_some_iff)

def Switch.namesSource : Switch → Bool
  | .port | .replay | .demo => true
  | _ => false

/-- Two sources are named. -/
def Contested (gs : List Given) : Prop :=
  ∃ s ∈ gs.map Given.switch, ∃ t ∈ gs.map Given.switch,
    s ≠ t ∧ s.namesSource = true ∧ t.namesSource = true

/-- What the given switches say of a quantity: what the text of its own switch says, or else
something that stands already. -/
inductive Reads {β : Type} (gs : List Given) (s : Switch) (Text : String → β → Prop)
    (otherwise : β) : β → Prop where
  | given {value : String} {x : β} : ⟨s, value⟩ ∈ gs → Text value x → Reads gs s Text otherwise x
  | absent : s ∉ gs.map Given.switch → Reads gs s Text otherwise otherwise

/-- The sources that the given switches name, where the settings have a baud rate. -/
inductive Names (gs : List Given) (configured : UInt32) : Source → Prop where
  | port {port : String} {rate : UInt32} : ⟨.port, port⟩ ∈ gs →
      Reads gs .baud RateText configured rate → Names gs configured (.serial port rate)
  | replay {path : String} {interval : UInt64} : ⟨.replay, path⟩ ∈ gs →
      Reads gs .frameInterval IntervalText 50 interval →
      Names gs configured (.replay path interval)
  | demo {interval : UInt64} : .demo ∈ gs.map Given.switch →
      Reads gs .frameInterval IntervalText 50 interval → Names gs configured (.demo interval)

/-- At most one source is asked for, the given switches name it, and the viewer takes it as they do,
whatever the settings and the machine's ports are. -/
structure Serves (a : Arguments) (gs : List Given) : Prop where
  given : ∀ s, a.isGiven s = true ↔ s ∈ gs.map Given.switch
  alone : a.sourceCount ≤ 1
  named : ∀ s ∈ gs.map Given.switch, s.namesSource = true →
    ∀ configured, ∃ source, Names gs configured source
  chosen : ∀ (settings : Settings) (ports : List String) (source : Source),
    Names gs settings.baudRate source →
      a.chooseSource settings.baudRate ports = pure (some source)

variable {gs : List Given}

theorem text_given_iff {f : Arguments → Option String} {s : Switch} (own : Arguments.Owned f s)
    (unset : f .empty = none) (kept : ∀ text, f (Arguments.empty.put ⟨s, text⟩) = some text)
    (proper : Proper gs) {text : String} : f (given gs) = some text ↔ ⟨s, text⟩ ∈ gs := by
  rw [given_eq_some_iff own unset proper.distinct]
  constructor
  · rintro ⟨value, member, same⟩
    rw [kept, Option.some_inj] at same
    exact same ▸ member
  · intro member
    exact ⟨text, member, kept text⟩

theorem port_given_iff (proper : Proper gs) {port : String} :
    (given gs).port = some port ↔ ⟨.port, port⟩ ∈ gs :=
  text_given_iff Arguments.owned_port rfl (fun _ => rfl) proper

theorem replay_given_iff (proper : Proper gs) {path : String} :
    (given gs).replay = some path ↔ ⟨.replay, path⟩ ∈ gs :=
  text_given_iff Arguments.owned_replay rfl (fun _ => rfl) proper

theorem baud_given_iff (proper : Proper gs) {rate : UInt32} :
    (given gs).baud = some rate ↔ ∃ value, ⟨.baud, value⟩ ∈ gs ∧ RateText value rate := by
  rw [given_eq_some_iff Arguments.owned_baud rfl proper.distinct]
  exact exists_congr fun value => and_congr_right fun _ => baudRate?_eq_some_iff

theorem frameInterval_given_iff (proper : Proper gs) {interval : UInt64} :
    (given gs).frameInterval = some interval ↔
      ∃ value, ⟨.frameInterval, value⟩ ∈ gs ∧ IntervalText value interval := by
  rw [given_eq_some_iff Arguments.owned_frameInterval rfl proper.distinct]
  exact exists_congr fun value => and_congr_right fun _ => word?_eq_some_iff

theorem getD_eq_iff_reads {β : Type} {s : Switch} {Text : String → β → Prop} {part : Option β}
    (some_iff : ∀ {x}, part = some x ↔ ∃ value, ⟨s, value⟩ ∈ gs ∧ Text value x)
    (isSome_iff : part.isSome = true ↔ s ∈ gs.map Given.switch) {otherwise x : β} :
    part.getD otherwise = x ↔ Reads gs s Text otherwise x := by
  constructor
  · rintro rfl
    cases part with
    | none => exact .absent fun member => nomatch isSome_iff.mpr member
    | some x =>
      obtain ⟨value, member, text⟩ := some_iff.mp rfl
      exact .given member text
  · intro reads
    cases reads with
    | given member text => rw [some_iff.mpr ⟨_, member, text⟩, Option.getD_some]
    | absent unused =>
      rw [Option.not_isSome_iff_eq_none.mp (mt isSome_iff.mp unused), Option.getD_none]

theorem reads_rate_iff (proper : Proper gs) {configured rate : UInt32} :
    (given gs).baud.getD configured = rate ↔ Reads gs .baud RateText configured rate :=
  getD_eq_iff_reads (baud_given_iff proper) (isGiven_given (s := .baud) proper)

theorem reads_interval_iff (proper : Proper gs) {interval : UInt64} :
    (given gs).interval = interval ↔ Reads gs .frameInterval IntervalText 50 interval :=
  getD_eq_iff_reads (frameInterval_given_iff proper) (isGiven_given (s := .frameInterval) proper)

theorem one_lt_sourceCount_iff {a : Arguments} :
    1 < a.sourceCount ↔ ∃ s, a.isGiven s = true ∧ ∃ t, a.isGiven t = true ∧
      s ≠ t ∧ s.namesSource = true ∧ t.namesSource = true := by
  have count : a.sourceCount =
      (a.isGiven .port).toNat + (a.isGiven .replay).toNat + (a.isGiven .demo).toNat := rfl
  have two : ∀ x y z : Bool, 1 < x.toNat + y.toNat + z.toNat →
      x = true ∧ y = true ∨ x = true ∧ z = true ∨ y = true ∧ z = true := by decide
  constructor
  · intro many
    obtain ⟨port, replay⟩ | ⟨port, demo⟩ | ⟨replay, demo⟩ := two _ _ _ (count ▸ many)
    · exact ⟨.port, port, .replay, replay, nofun, rfl, rfl⟩
    · exact ⟨.port, port, .demo, demo, nofun, rfl, rfl⟩
    · exact ⟨.replay, replay, .demo, demo, nofun, rfl, rfl⟩
  · rintro ⟨s, first, t, second, different, source, other⟩
    rw [count]
    cases s <;> cases source <;> cases t <;> cases other <;>
      first
      | exact absurd rfl different
      | (rw [first, second]; simp only [Bool.toNat_true]; omega)

theorem contested_iff (proper : Proper gs) : Contested gs ↔ 1 < (given gs).sourceCount := by
  simp only [Contested, one_lt_sourceCount_iff, isGiven_given proper]

theorem not_contested_iff (proper : Proper gs) : ¬Contested gs ↔ (given gs).sourceCount ≤ 1 := by
  rw [contested_iff proper, Nat.not_lt]

theorem names_of_namedSource? (proper : Proper gs) {configured : UInt32} {source : Source}
    (h : (given gs).namedSource? configured = some source) : Names gs configured source := by
  have interval := (reads_interval_iff proper).mp rfl
  rw [Arguments.namedSource?] at h
  split at h
  · next demo =>
    cases h
    exact .demo ((isGiven_given proper).mp demo) interval
  · split at h
    · next replay =>
      cases h
      exact .replay ((replay_given_iff proper).mp replay) interval
    · next serial =>
      cases h
      exact .port ((port_given_iff proper).mp serial) ((reads_rate_iff proper).mp rfl)
    · cases h

/-- Where not two sources are named, the one that is taken is the one that is named. -/
theorem namedSource?_given_iff (proper : Proper gs) (alone : ¬Contested gs) {configured : UInt32}
    {source : Source} :
    (given gs).namedSource? configured = some source ↔ Names gs configured source := by
  refine ⟨names_of_namedSource? proper, fun names => ?_⟩
  have unused {s t : Switch} (first : s ∈ gs.map Given.switch) (different : s ≠ t)
      (named : s.namesSource = true) (other : t.namesSource = true) :
      ¬(given gs).isGiven t = true := fun second =>
    alone ⟨s, first, t, (isGiven_given proper).mp second, different, named, other⟩
  rw [Arguments.namedSource?]
  cases names with
  | port member rate =>
    have used : Switch.port ∈ gs.map Given.switch := List.mem_map_of_mem member
    have demo : ¬(given gs).demo = true := unused (t := .demo) used nofun rfl rfl
    have replay : ¬(given gs).replay.isSome = true := unused (t := .replay) used nofun rfl rfl
    rw [if_neg demo, Option.not_isSome_iff_eq_none.mp replay, (port_given_iff proper).mpr member,
      (reads_rate_iff proper).mpr rate]
  | replay member interval =>
    have used : Switch.replay ∈ gs.map Given.switch := List.mem_map_of_mem member
    have demo : ¬(given gs).demo = true := unused (t := .demo) used nofun rfl rfl
    rw [if_neg demo, (replay_given_iff proper).mpr member, (reads_interval_iff proper).mpr interval]
  | demo member interval =>
    have demo : (given gs).demo = true := (isGiven_given (s := .demo) proper).mpr member
    rw [if_pos demo, (reads_interval_iff proper).mpr interval]

theorem exists_names (proper : Proper gs) (configured : UInt32) {s : Switch}
    (member : s ∈ gs.map Given.switch) (named : s.namesSource = true) :
    ∃ source, Names gs configured source := by
  have rate : Reads gs .baud RateText configured _ := (reads_rate_iff proper).mp rfl
  have interval := (reads_interval_iff proper).mp rfl
  cases s <;> cases named
  · obtain ⟨⟨_, port⟩, member, ⟨⟩⟩ := List.mem_map.mp member
    exact ⟨_, .port member rate⟩
  · obtain ⟨⟨_, path⟩, member, ⟨⟩⟩ := List.mem_map.mp member
    exact ⟨_, .replay member interval⟩
  · exact ⟨_, .demo member interval⟩

theorem chooseSource_of_names (proper : Proper gs) (alone : ¬Contested gs) {configured : UInt32}
    {source : Source} (names : Names gs configured source) (ports : List String) :
    (given gs).chooseSource configured ports = pure (some source) := by
  unfold Arguments.chooseSource
  rw [(namedSource?_given_iff proper alone).mpr names]

/-- A command line that is read is served. One that names two sources is refused for that, in
whatever order its switches stand. -/
theorem parse_source (argv : List String) :
    (∀ a, parse argv = .ok a →
      (∃ gs, Line gs argv) ∧ ∀ gs, Line gs argv → Serves a gs) ∧
    ∀ gs, Line gs argv → Proper gs → Contested gs → parse argv = .error (.refused .conflict) := by
  constructor
  · intro a read
    obtain ⟨gs, line, -, few, -⟩ := parse_eq_ok_iff.mp read
    refine ⟨⟨gs, line⟩, fun gs line => ?_⟩
    obtain ⟨proper, few, rfl⟩ := (parse_line_eq_ok_iff line).mp read
    have alone := (not_contested_iff proper).mpr few
    exact {
      given := fun s => isGiven_given proper
      alone := few
      named := fun s member named configured => exists_names proper configured member named
      chosen := fun settings ports source names => chooseSource_of_names proper alone names ports }
  · intro gs line proper contested
    exact parse_eq_conflict line proper ((contested_iff proper).mp contested)

theorem parse_source_either_way :
    (∃ a, parse ["--baud=9600", "--port", "COM3"] = .ok a ∧
      a.chooseSource Settings.standard.baudRate [] = pure (some (.serial "COM3" 9600))) ∧
    parse ["--demo", "--replay=x.txt"] = .error (.refused .conflict) := by
  have baud : Spells ⟨.baud, "9600"⟩ ["--baud=9600"] := .attached rfl
  have port : Spells ⟨.port, "COM3"⟩ ["--port", "COM3"] := .separate rfl (by decide)
  have read : parse ["--baud=9600", "--port", "COM3"] =
      .ok { Arguments.empty with port := some "COM3", baud := some 9600 } := rfl
  have rate : RateText "9600" 9600 := baudRate?_eq_some_iff.mp rfl
  have serves := ((parse_source _).1 _ read).2 _ (.cons baud (.cons port .nil))
  have demo : Spells ⟨.demo, ""⟩ ["--demo"] := .flag rfl
  have replay : Spells ⟨.replay, "x.txt"⟩ ["--replay=x.txt"] := .attached rfl
  have path : (⟨.replay, "x.txt"⟩ : Given).Proper := (by decide : "x.txt" ≠ "")
  have proper : Proper [⟨.demo, ""⟩, ⟨.replay, "x.txt"⟩] :=
    ⟨by decide, List.forall_mem_cons.mpr ⟨trivial, List.forall_mem_singleton.mpr path⟩⟩
  have contested : Contested [⟨.demo, ""⟩, ⟨.replay, "x.txt"⟩] :=
    ⟨.demo, by decide, .replay, by decide, nofun, rfl, rfl⟩
  exact ⟨⟨_, read, serves.chosen .standard [] _ (.port (by decide) (.given (by decide) rate))⟩,
    (parse_source _).2 _ (.cons demo (.cons replay .nil)) proper contested⟩

/-- The port that is named gets a rate of zero exactly if the line gives one, though settings with
one are refused. -/
theorem chooseSource_zero_iff {argv : List String} {a : Arguments} (read : parse argv = .ok a)
    (named : a.port.isSome = true) {settings : Settings} (accepted : settings.Accepted)
    (ports : List String) :
    (∃ gs, Line gs argv) ∧ ∀ gs, Line gs argv → ∃ port rate, ⟨.port, port⟩ ∈ gs ∧
      a.chooseSource settings.baudRate ports = pure (some (.serial port rate)) ∧
      (rate = 0 ↔ ∃ text, ⟨.baud, text⟩ ∈ gs ∧ RateText text 0) := by
  obtain ⟨gs, line, -⟩ := parse_eq_ok_iff.mp read
  refine ⟨⟨gs, line⟩, fun gs line => ?_⟩
  obtain ⟨proper, few, rfl⟩ := (parse_line_eq_ok_iff line).mp read
  have alone := (not_contested_iff proper).mpr few
  obtain ⟨port, serial⟩ := Option.isSome_iff_exists.mp named
  have member := (port_given_iff proper).mp serial
  obtain ⟨rate, reads⟩ : ∃ rate, Reads gs .baud RateText settings.baudRate rate :=
    ⟨_, (reads_rate_iff proper).mp rfl⟩
  refine ⟨port, rate, member,
    chooseSource_of_names proper alone (.port member reads) ports, ?_⟩
  constructor
  · intro zero
    cases reads with
    | given member text => exact ⟨_, member, zero ▸ text⟩
    | absent unused => exact absurd zero (settings.accepted_iff.mp accepted).2.2.1
  · rintro ⟨text, member, zero⟩
    rw [← (reads_rate_iff proper).mpr reads, (baud_given_iff proper).mpr ⟨text, member, zero⟩,
      Option.getD_some]

theorem chooseSource_zero_iff_plus :
    let gs : List Given := [⟨.baud, "+9600"⟩, ⟨.port, "COM3"⟩]
    ∃ a, parse ["--baud=+9600", "--port=COM3"] = .ok a ∧ ∃ port rate, ⟨.port, port⟩ ∈ gs ∧
      a.chooseSource Settings.standard.baudRate [] = pure (some (.serial port rate)) ∧
      (rate = 0 ↔ ∃ text, ⟨.baud, text⟩ ∈ gs ∧ RateText text 0) := by
  have read : parse ["--baud=+9600", "--port=COM3"] =
      .ok { Arguments.empty with port := some "COM3", baud := some 9600 } := rfl
  have accepted : Settings.standard.Accepted := by decide
  have baud : Spells ⟨.baud, "+9600"⟩ ["--baud=+9600"] := .attached rfl
  have port : Spells ⟨.port, "COM3"⟩ ["--port=COM3"] := .attached rfl
  exact ⟨_, read, (chooseSource_zero_iff read rfl accepted []).2 _ (.cons baud (.cons port .nil))⟩

/-- A rate of zero on the line goes past the check of the settings. -/
theorem chooseSource_zero :
    Settings.standard.Accepted ∧ ∃ a, parse ["--port", "COM3", "--baud", "0"] = .ok a ∧
      a.chooseSource Settings.standard.baudRate [] = pure (some (.serial "COM3" 0)) :=
  ⟨by decide, _, rfl, rfl⟩

end CommandLine

end SpectrumViewer
