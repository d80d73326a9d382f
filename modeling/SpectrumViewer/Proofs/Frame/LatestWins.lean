import Mathlib.Data.List.DropRight
import SpectrumViewer.Frame.Exchange

set_option autoImplicit false

/-!
The newest frame wins, in whatever order publisher and taker have their turns. The frames that the
taker has returned, holds or can still find are published ones in the order of publication, and
outside a publication the last of them is the newest one published (`Coherent`). A publication
removes at most one unread frame, since nobody else fills the mailbox while it is under way.
-/

namespace SpectrumViewer

def Event.begins : Event → Bool
  | .begun _ => true
  | _ => false

namespace Exchange

/-- The frames of the publications that were completed, the first one first. -/
def published (events : List Event) : List Frame :=
  events.filterMap fun
    | .published frame _ => some frame
    | _ => none

/-- The frames that completed pickups returned, the first one first. -/
def returned (events : List Event) : List Frame :=
  events.filterMap fun
    | .returned latest => latest
    | _ => none

/-- The unread frames that the publisher has removed since it last began a publication. -/
def removals (events : List Event) : List Frame :=
  (events.rtakeWhile (!·.begins)).filterMap fun
    | .tried frame => frame
    | _ => none

/-- The frame of the publication under way. -/
def pending (e : Exchange) : Option Frame := e.publication.map Publication.frame

/-- The frame held by the pickup under way. -/
def held (e : Exchange) : Option Frame := e.pickup.bind Pickup.latest

/-- The frames that the taker has returned, holds or can still find. -/
def obtainable (events : List Event) (e : Exchange) : List Frame :=
  returned events ++ e.held.toList ++ e.mailbox.unread.toList

@[simp] theorem published_concat (events : List Event) (event : Event) :
    published (events ++ [event]) = published events ++ published [event] :=
  List.filterMap_append

@[simp] theorem returned_concat (events : List Event) (event : Event) :
    returned (events ++ [event]) = returned events ++ returned [event] :=
  List.filterMap_append

theorem removals_concat_begun (events : List Event) (frame : Frame) :
    removals (events ++ [.begun frame]) = [] := by
  simp [removals, Event.begins]

theorem removals_concat {event : Event} (events : List Event)
    (within : event.begins = false) :
    removals (events ++ [event]) = removals events ++ removals [event] := by
  have alone : [event].rtakeWhile (!·.begins) = [event] := by simp [List.rtakeWhile, within]
  have grown : (events ++ [event]).rtakeWhile (!·.begins) =
      events.rtakeWhile (!·.begins) ++ [event] := by simp [within]
  rw [removals, removals, removals, grown, alone, List.filterMap_append]

theorem removals_concat_other {event : Event} (events : List Event)
    (within : event.begins = false) (nothing : removals [event] = []) :
    removals (events ++ [event]) = removals events := by
  rw [removals_concat events within, nothing, List.append_nil]

/-- Each publication that was completed reported how many unread frames it had removed, and that is
one at most. -/
def Settled (events : List Event) : Prop :=
  ∀ before frame count later, events = before ++ .published frame count :: later →
    count ≤ 1 ∧ count = (removals before).length

theorem Settled.concat {events : List Event} {event : Event} (settled : Settled events)
    (last : ∀ frame count, event = .published frame count →
      count ≤ 1 ∧ count = (removals events).length) :
    Settled (events ++ [event]) := by
  intro before frame count later split
  rcases List.eq_nil_or_concat later with rfl | ⟨earlier, final, rfl⟩
  · obtain ⟨rfl, same⟩ := List.append_inj' split rfl
    exact last frame count (List.head_eq_of_cons_eq same)
  · rw [List.concat_eq_append, ← List.cons_append, ← List.append_assoc] at split
    obtain ⟨rfl, -⟩ := List.append_inj' split rfl
    exact settled before frame count earlier rfl

/-- What the publication under way has counted. Once it has removed a frame it finds the mailbox
empty, so it cannot be refused again. -/
def Counted (events : List Event) (e : Exchange) : Prop :=
  match e.publication with
  | none => True
  | some (.offering _ count) =>
    count = (removals events).length ∧ (count = 0 ∨ count = 1 ∧ e.mailbox.unread = none)
  | some (.evicting _ count) => count = 0 ∧ removals events = []

/-- What holds between any two turns of an exchange of these frames. -/
structure Coherent (frames : List Frame) (events : List Event) (e : Exchange) : Prop where
  ledger : published events ++ e.pending.toList ++ e.upcoming = frames
  ordered : (obtainable events e).Sublist (published events)
  newest : e.publication = none → (obtainable events e).getLast? = (published events).getLast?
  counted : Counted events e
  settled : Settled events

theorem start_coherent (frames : List Frame) : Coherent frames [] (start frames) where
  ledger := rfl
  ordered := List.Sublist.refl []
  newest _ := rfl
  counted := trivial
  settled := by
    intro before frame count later split
    cases before <;> cases split

/-- A turn that completes no publication. -/
theorem Coherent.within {frames : List Frame} {events : List Event} {event : Event}
    {e after : Exchange} (h : Coherent frames events e) (silent : published [event] = [])
    (unbegun : after.pending.toList ++ after.upcoming = e.pending.toList ++ e.upcoming)
    (fewer : (obtainable (events ++ [event]) after).Sublist (obtainable events e))
    (last : after.publication = none → e.publication = none ∧
      (obtainable (events ++ [event]) after).getLast? = (obtainable events e).getLast?)
    (counted : Counted (events ++ [event]) after) :
    Coherent frames (events ++ [event]) after := by
  have same : published (events ++ [event]) = published events := by
    rw [published_concat, silent, List.append_nil]
  refine ⟨?_, ?_, ?_, counted, ?_⟩
  · rw [same, List.append_assoc, unbegun, ← List.append_assoc]
    exact h.ledger
  · rw [same]
    exact fewer.trans h.ordered
  · intro ended
    obtain ⟨idle, lastSame⟩ := last ended
    rw [same, lastSame]
    exact h.newest idle
  · apply h.settled.concat
    intro frame count eq
    rw [eq] at silent
    cases silent

theorem Coherent.within_same {frames : List Frame} {events : List Event} {event : Event}
    {e after : Exchange} (h : Coherent frames events e) (silent : published [event] = [])
    (unbegun : after.pending.toList ++ after.upcoming = e.pending.toList ++ e.upcoming)
    (same : obtainable (events ++ [event]) after = obtainable events e)
    (unended : after.publication = none → e.publication = none)
    (counted : Counted (events ++ [event]) after) :
    Coherent frames (events ++ [event]) after := by
  refine h.within silent unbegun ?_ ?_ counted
  · rw [same]
  · intro ended
    exact ⟨unended ended, congrArg List.getLast? same⟩

theorem Counted.taker {events : List Event} {event : Event} {e after : Exchange}
    (counted : Counted events e) (same : after.publication = e.publication)
    (unremoved : removals (events ++ [event]) = removals events)
    (emptier : e.mailbox.unread = none → after.mailbox.unread = none) :
    Counted (events ++ [event]) after := by
  unfold Counted at counted ⊢
  rw [same, unremoved]
  cases publication : e.publication with
  | none => exact trivial
  | some p =>
    rw [publication] at counted
    cases p with
    | evicting frame count => exact counted
    | offering frame count =>
      refine ⟨counted.1, ?_⟩
      rcases counted.2 with none | ⟨one, empty⟩
      · exact Or.inl none
      · exact Or.inr ⟨one, emptier empty⟩

theorem obtainable_concat {event : Event} (events : List Event) (e : Exchange)
    (silent : returned [event] = []) : obtainable (events ++ [event]) e = obtainable events e := by
  rw [obtainable, returned_concat, silent, List.append_nil]
  rfl

section Turns

variable {frames upcoming : List Frame} {events : List Event} {slot latest : Option Frame}
  {frame stale : Frame} {count : Nat} {publication : Option Publication} {pickup : Option Pickup}

theorem Coherent.idle (h : Coherent frames events ⟨⟨slot⟩, [], none, pickup⟩) :
    Coherent frames (events ++ [.idle]) ⟨⟨slot⟩, [], none, pickup⟩ :=
  h.within_same rfl rfl (obtainable_concat _ _ rfl) id trivial

theorem Coherent.begin (h : Coherent frames events ⟨⟨slot⟩, frame :: upcoming, none, pickup⟩) :
    Coherent frames (events ++ [.begun frame])
      ⟨⟨slot⟩, upcoming, some (.offering frame 0), pickup⟩ := by
  refine h.within_same rfl rfl (obtainable_concat _ _ rfl) nofun ?_
  rw [Counted, removals_concat_begun]
  exact ⟨rfl, Or.inl rfl⟩

theorem Coherent.publish
    (h : Coherent frames events ⟨⟨none⟩, upcoming, some (.offering frame count), pickup⟩) :
    Coherent frames (events ++ [.published frame count])
      ⟨⟨some frame⟩, upcoming, none, pickup⟩ := by
  have grown : published (events ++ [.published frame count]) = published events ++ [frame] :=
    published_concat events _
  have behind : obtainable (events ++ [.published frame count])
      ⟨⟨some frame⟩, upcoming, none, pickup⟩ =
        obtainable events ⟨⟨none⟩, upcoming, some (.offering frame count), pickup⟩ ++ [frame] := by
    rw [obtainable_concat _ _ rfl]
    simp [obtainable, held]
  refine ⟨?_, ?_, ?_, trivial, ?_⟩
  · rw [grown, ← h.ledger]
    simp [pending, Publication.frame]
  · rw [grown, behind]
    exact h.ordered.append (List.Sublist.refl [frame])
  · intro _
    rw [grown, behind, List.getLast?_concat, List.getLast?_concat]
  · apply h.settled.concat
    intro _ _ same
    cases same
    obtain ⟨counted, atMost⟩ := h.counted
    refine ⟨?_, counted⟩
    rcases atMost with zero | ⟨one, -⟩
    · exact zero.trans_le (Nat.zero_le 1)
    · exact one.le

theorem Coherent.refuse
    (h : Coherent frames events ⟨⟨some stale⟩, upcoming, some (.offering frame count), pickup⟩) :
    Coherent frames (events ++ [.tried none])
      ⟨⟨some stale⟩, upcoming, some (.evicting frame count), pickup⟩ := by
  refine h.within_same rfl rfl (obtainable_concat _ _ rfl) nofun ?_
  obtain ⟨counted, atMost⟩ := h.counted
  have zero : count = 0 := by
    rcases atMost with zero | ⟨-, empty⟩
    · exact zero
    · cases empty
  refine ⟨zero, ?_⟩
  rw [removals_concat_other events rfl rfl]
  exact List.eq_nil_of_length_eq_zero (counted.symm.trans zero)

theorem Coherent.miss
    (h : Coherent frames events ⟨⟨none⟩, upcoming, some (.evicting frame count), pickup⟩) :
    Coherent frames (events ++ [.tried none])
      ⟨⟨none⟩, upcoming, some (.offering frame count), pickup⟩ := by
  refine h.within_same rfl rfl (obtainable_concat _ _ rfl) nofun ?_
  obtain ⟨zero, unremoved⟩ := h.counted
  refine ⟨?_, Or.inl zero⟩
  rw [removals_concat_other events rfl rfl, unremoved]
  exact zero

theorem Coherent.evict
    (h : Coherent frames events ⟨⟨some stale⟩, upcoming, some (.evicting frame count), pickup⟩) :
    Coherent frames (events ++ [.tried (some stale)])
      ⟨⟨none⟩, upcoming, some (.offering frame (count + 1)), pickup⟩ := by
  refine h.within rfl rfl ?_ nofun ?_
  · rw [obtainable_concat _ _ rfl]
    exact List.Sublist.append_left (List.nil_sublist [stale]) _
  · obtain ⟨zero, unremoved⟩ := h.counted
    refine ⟨?_, Or.inr ⟨congrArg (· + 1) zero, rfl⟩⟩
    rw [removals_concat _ rfl, unremoved, zero]
    rfl

theorem Coherent.ask (h : Coherent frames events ⟨⟨slot⟩, upcoming, publication, none⟩) :
    Coherent frames (events ++ [.asked]) ⟨⟨slot⟩, upcoming, publication, some ⟨none⟩⟩ := by
  refine h.within_same rfl rfl (obtainable_concat _ _ rfl) id ?_
  exact h.counted.taker rfl (removals_concat_other events rfl rfl) id

theorem Coherent.receive
    (h : Coherent frames events ⟨⟨some frame⟩, upcoming, publication, some ⟨latest⟩⟩) :
    Coherent frames (events ++ [.received (some frame)])
      ⟨⟨none⟩, upcoming, publication, some ⟨some frame⟩⟩ := by
  have moved : obtainable (events ++ [.received (some frame)])
      ⟨⟨none⟩, upcoming, publication, some ⟨some frame⟩⟩ = returned events ++ [frame] := by
    rw [obtainable_concat _ _ rfl]
    exact List.append_nil _
  refine h.within rfl rfl ?_ ?_ ?_
  · rw [moved]
    exact (List.sublist_append_left (returned events) latest.toList).append
      (List.Sublist.refl [frame])
  · intro ended
    refine ⟨ended, ?_⟩
    rw [moved, List.getLast?_concat]
    exact List.getLast?_concat.symm
  · exact h.counted.taker rfl (removals_concat_other events rfl rfl) fun _ => rfl

theorem Coherent.answer
    (h : Coherent frames events ⟨⟨none⟩, upcoming, publication, some ⟨latest⟩⟩) :
    Coherent frames (events ++ [.returned latest]) ⟨⟨none⟩, upcoming, publication, none⟩ := by
  refine h.within_same rfl rfl ?_ id ?_
  · rw [obtainable, returned_concat]
    cases latest <;> simp [obtainable, held, returned]
  · exact h.counted.taker rfl (removals_concat_other events rfl rfl) id

end Turns

/-- Whoever has the turn, the exchange stays coherent. -/
theorem Coherent.step {frames : List Frame} {events : List Event} {e : Exchange}
    (h : Coherent frames events e) (party : Party) :
    Coherent frames (events ++ [(e.step party).1]) (e.step party).2 := by
  rcases e with ⟨⟨slot⟩, upcoming, publication, pickup⟩
  cases party with
  | publisher =>
    rcases publication with _ | ⟨frame, count⟩ | ⟨frame, count⟩
    · cases upcoming with
      | nil => exact h.idle
      | cons frame upcoming => exact h.begin
    · cases slot with
      | none => exact h.publish
      | some stale => exact h.refuse
    · cases slot with
      | none => exact h.miss
      | some stale => exact h.evict
  | taker =>
    rcases pickup with _ | ⟨latest⟩
    · exact h.ask
    · cases slot with
      | none => exact h.answer
      | some frame => exact h.receive

theorem run_concat (e : Exchange) (schedule : List Party) (party : Party) :
    e.run (schedule ++ [party]) =
      ((e.run schedule).1 ++ [((e.run schedule).2.step party).1],
        ((e.run schedule).2.step party).2) := by
  rw [run, List.foldl_concat]
  rfl

theorem run_coherent (frames : List Frame) (schedule : List Party) :
    Coherent frames ((start frames).run schedule).1 ((start frames).run schedule).2 := by
  induction schedule using List.reverseRecOn with
  | nil => exact start_coherent frames
  | append_singleton earlier party ih =>
    rw [run_concat]
    exact ih.step party

/-- The frame cannot be lost: the taker has returned it, holds it or will find it. -/
def Kept (frame : Frame) (events : List Event) (e : Exchange) : Prop :=
  frame ∈ returned events ∨ e.held = some frame ∨ e.mailbox.unread = some frame

theorem kept_of_mem_obtainable {frame : Frame} {events : List Event} {e : Exchange}
    (h : frame ∈ obtainable events e) : Kept frame events e := by
  rcases List.mem_append.mp h with earlier | unread
  · rcases List.mem_append.mp earlier with taken | held
    · exact Or.inl taken
    · exact Or.inr (Or.inl (Option.mem_toList.mp held))
  · exact Or.inr (Or.inr (Option.mem_toList.mp unread))

/-- What publisher and taker may rely on, between any two turns. -/
structure LatestWins (frames : List Frame) (events : List Event) (e : Exchange) : Prop where
  single : e.mailbox.unread.toList.length ≤ 1
  inTurn : published events <+: frames
  unaltered : (returned events).Sublist (published events)
  increasing : (returned events).Pairwise (·.sequence < ·.sequence)
  once : (returned events).Nodup
  counts : Settled events
  newest : e.publication = none → ∀ frame, (published events).getLast? = some frame →
    Kept frame events e
  superseded : e.publication = none → ∀ frame ∈ published events, ¬Kept frame events e →
    ∃ newer ∈ published events, frame.sequence < newer.sequence

theorem Coherent.published_prefix {frames : List Frame} {events : List Event} {e : Exchange}
    (h : Coherent frames events e) : published events <+: frames :=
  ⟨e.pending.toList ++ e.upcoming, by rw [← List.append_assoc, h.ledger]⟩

theorem Coherent.kept_getLast {frames : List Frame} {events : List Event} {e : Exchange}
    (h : Coherent frames events e) (ended : e.publication = none) {frame : Frame}
    (last : (published events).getLast? = some frame) : Kept frame events e := by
  apply kept_of_mem_obtainable
  apply List.mem_of_getLast?
  rw [h.newest ended, last]

theorem exists_newer {frames : List Frame} (increasing : frames.Pairwise (·.sequence < ·.sequence))
    {frame : Frame} (h : frame ∈ frames) :
    frames.getLast? = some frame ∨ ∃ newer ∈ frames, frame.sequence < newer.sequence := by
  rcases List.eq_nil_or_concat frames with rfl | ⟨earlier, last, rfl⟩
  · cases h
  · rw [List.concat_eq_append] at h increasing ⊢
    rcases List.mem_append.mp h with older | same
    · right
      refine ⟨last, List.mem_append_right _ (List.mem_singleton_self last), ?_⟩
      exact (List.pairwise_append.mp increasing).2.2 frame older last (List.mem_singleton_self last)
    · left
      rw [List.mem_singleton.mp same, List.getLast?_concat]

/-- In whatever order the two have their turns, the newest frame wins. -/
theorem run_latestWins (frames : List Frame)
    (increasing : frames.Pairwise (·.sequence < ·.sequence)) (schedule : List Party) :
    LatestWins frames ((start frames).run schedule).1 ((start frames).run schedule).2 := by
  have h := run_coherent frames schedule
  generalize ((start frames).run schedule).1 = events at h ⊢
  generalize ((start frames).run schedule).2 = e at h ⊢
  have publishedIncreasing := increasing.sublist h.published_prefix.sublist
  have unaltered : (returned events).Sublist (published events) := by
    refine List.Sublist.trans ?_ h.ordered
    rw [obtainable, List.append_assoc]
    exact List.sublist_append_left _ _
  have returnedIncreasing := publishedIncreasing.sublist unaltered
  refine ⟨?_, h.published_prefix, unaltered, returnedIncreasing, ?_, h.settled, ?_, ?_⟩
  · exact Option.length_toList_le
  · exact returnedIncreasing.imp fun less same => less.ne (congrArg Frame.sequence same)
  · intro ended frame last
    exact h.kept_getLast ended last
  · intro ended frame membership lost
    rcases exists_newer publishedIncreasing membership with last | newer
    · exact absurd (h.kept_getLast ended last) lost
    · exact newer

/-- The taker empties the mailbox between a refused offer and the eviction; a second frame comes
in the middle of its pickup, and a third that nobody picks up is replaced. -/
theorem run_latestWins_crossing :
    let frames : List Frame := [⟨0, [], "a"⟩, ⟨1, [], "b"⟩, ⟨4, [], "c"⟩, ⟨5, [], "d"⟩]
    let schedule : List Party := [.publisher, .publisher, .publisher, .publisher, .taker, .taker,
      .publisher, .publisher, .taker, .taker, .publisher, .publisher, .publisher, .publisher,
      .publisher, .publisher]
    frames.Pairwise (·.sequence < ·.sequence) ∧
      (start frames).run schedule =
        ([.begun ⟨0, [], "a"⟩, .published ⟨0, [], "a"⟩ 0, .begun ⟨1, [], "b"⟩, .tried none,
          .asked, .received (some ⟨0, [], "a"⟩), .tried none, .published ⟨1, [], "b"⟩ 0,
          .received (some ⟨1, [], "b"⟩), .returned (some ⟨1, [], "b"⟩), .begun ⟨4, [], "c"⟩,
          .published ⟨4, [], "c"⟩ 0, .begun ⟨5, [], "d"⟩, .tried none,
          .tried (some ⟨4, [], "c"⟩), .published ⟨5, [], "d"⟩ 1],
          ⟨⟨some ⟨5, [], "d"⟩⟩, [], none, none⟩) ∧
      LatestWins frames ((start frames).run schedule).1 ((start frames).run schedule).2 :=
  ⟨by decide, by decide, run_latestWins _ (by decide) _⟩

end Exchange

end SpectrumViewer
