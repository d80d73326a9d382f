import SpectrumViewer.Display.Viewer
import SpectrumViewer.Proofs.Waterfall.Scrolling

set_option autoImplicit false

/-!
The display shows what it has. A display is followed through a run in which frames are published
to its mailbox, ticks pass and clears are clicked, in any order. Between any two of these the screen
has the waterfall as it is once a frame was taken, and the waterfall is marked as stale before
(`Fresh`); a tick preserves this, whatever happens in it (`Fresh.ticked`), and so does a run
(`Session.run_fresh`). What a tick shows follows (`run_upToDate`), and so does that no cell outside
the grid is touched by the rows that the display pushes (`Session.push?_run`).
-/

namespace SpectrumViewer

namespace Waterfall

theorem Sound.flatten_rows {w : Waterfall} (s : w.Sound) : w.rows.flatten = w.pixels := by
  have upTo (count : Nat) (inside : count ≤ w.height) :
      ((List.range count).filterMap w.row?).flatten = w.pixels.take (count * w.width) := by
    induction count with
    | zero => simp
    | succ count ih =>
      have last : w.row? count = some ((w.pixels.drop (count * w.width)).take w.width) :=
        if_pos inside
      rw [List.range_succ, List.filterMap_append, List.flatten_append, ih (by omega),
        Nat.succ_mul, List.take_add]
      simp [last]
  rw [rows, upTo w.height le_rfl, ← s.length_pixels, List.take_length]

end Waterfall

/-- What a tick meets: the counts of the receiver, whether the button was clicked, the screen and
what is in sight of it. -/
structure Occasion where
  accepted : Nat
  rejected : Nat
  clicked : Bool
  screen : Screen
  sight : Sight

/-- What happens to a display and its mailbox. -/
inductive Moment where
  | published (frame : Frame)
  | ticked (occasion : Occasion)

namespace Moment

def clears : Moment → Bool
  | published _ => false
  | ticked occasion => occasion.clicked

/-- The frame that waits in the mailbox behind some moments: the newest one published since the
last tick, or `unread` if there was neither. -/
def waiting (unread : Option Frame) : List Moment → Option Frame
  | [] => unread
  | published frame :: rest => waiting (some frame) rest
  | ticked _ :: rest => waiting none rest

/-- The frames that ticks find in the mailbox, the first one first. -/
def taken (unread : Option Frame) : List Moment → List Frame
  | [] => []
  | published frame :: rest => taken (some frame) rest
  | ticked _ :: rest => unread.toList ++ taken none rest

/-- The frames taken since the last clear, the latest first. A clear also counts as later than the
frame taken in the same tick. -/
def recent (moments : List Moment) : List Frame :=
  (taken none (moments.rtakeWhile (!·.clears))).reverse

theorem waiting_concat_published (unread : Option Frame) (moments : List Moment) (frame : Frame) :
    waiting unread (moments ++ [published frame]) = some frame := by
  induction moments generalizing unread with
  | nil => rfl
  | cons moment rest ih => cases moment <;> exact ih _

theorem waiting_concat_ticked (unread : Option Frame) (moments : List Moment) (o : Occasion) :
    waiting unread (moments ++ [ticked o]) = none := by
  induction moments generalizing unread with
  | nil => rfl
  | cons moment rest ih => cases moment <;> exact ih _

theorem taken_concat_published (unread : Option Frame) (moments : List Moment) (frame : Frame) :
    taken unread (moments ++ [published frame]) = taken unread moments := by
  induction moments generalizing unread with
  | nil => rfl
  | cons moment rest ih =>
    cases moment with
    | published frame => exact ih _
    | ticked o => exact congrArg (unread.toList ++ ·) (ih none)

theorem taken_concat_ticked (unread : Option Frame) (moments : List Moment) (o : Occasion) :
    taken unread (moments ++ [ticked o]) =
      taken unread moments ++ (waiting unread moments).toList := by
  induction moments generalizing unread with
  | nil => simp [taken, waiting]
  | cons moment rest ih =>
    cases moment with
    | published frame => exact ih _
    | ticked o =>
      rw [List.cons_append, taken, ih none, ← List.append_assoc]
      rfl

/-- What waits does not depend on what happened up to a clear, which is a tick. -/
theorem waiting_rtakeWhile (moments : List Moment) :
    waiting none (moments.rtakeWhile (!·.clears)) = waiting none moments := by
  rcases List.eq_nil_or_concat moments with rfl | ⟨earlier, last, rfl⟩
  · rfl
  · rw [List.concat_eq_append, List.rtakeWhile_concat]
    cases last with
    | published frame =>
      rw [if_pos (by rfl), waiting_concat_published, waiting_concat_published]
    | ticked o =>
      rw [waiting_concat_ticked]
      split
      · exact waiting_concat_ticked _ _ _
      · rfl

theorem length_taken_le (unread : Option Frame) (moments : List Moment) :
    (taken unread moments).length ≤ moments.length := by
  induction moments generalizing unread with
  | nil => exact le_rfl
  | cons moment rest ih =>
    cases moment with
    | published frame => exact (ih (some frame)).trans (Nat.le_succ _)
    | ticked o =>
      have first : unread.toList.length ≤ 1 := by cases unread <;> simp
      have later := ih none
      rw [taken, List.length_append, List.length_cons]
      omega

theorem length_recent_le (moments : List Moment) : (recent moments).length ≤ moments.length := by
  rw [recent, List.length_reverse]
  exact (length_taken_le none _).trans (List.rtakeWhile_suffix _ _).length_le

theorem recent_concat_published (moments : List Moment) (frame : Frame) :
    recent (moments ++ [published frame]) = recent moments := by
  rw [recent, List.rtakeWhile_concat, if_pos (by rfl), taken_concat_published]
  rfl

theorem recent_concat_clear (moments : List Moment) {o : Occasion} (clicked : o.clicked = true) :
    recent (moments ++ [ticked o]) = [] := by
  rw [recent, List.rtakeWhile_concat, if_neg (by simp [clears, clicked])]
  rfl

theorem recent_concat_tick (moments : List Moment) {o : Occasion} (kept : o.clicked = false) :
    recent (moments ++ [ticked o]) = (waiting none moments).toList ++ recent moments := by
  rw [recent, List.rtakeWhile_concat, if_pos (by simp [clears, kept]), taken_concat_ticked,
    waiting_rtakeWhile, List.reverse_append, recent]
  cases waiting none moments <;> rfl

end Moment

/-- The waterfall that a picture brings to the screen. -/
def Picture.upload? (picture : Picture) : Option Upload :=
  match picture.body with
  | .inl _ => none
  | .inr plots => plots.upload

/-- The waterfall that the screen has behind some pictures: the one that came last. -/
def Picture.shown (pictures : List Picture) : Option Upload :=
  (pictures.filterMap Picture.upload?).getLast?

theorem Picture.shown_concat (pictures : List Picture) (picture : Picture) :
    shown (pictures ++ [picture]) = picture.upload?.or (shown pictures) := by
  rw [shown, List.filterMap_append, List.getLast?_append, shown]
  cases h : picture.upload? <;> simp [h]

/-- A display and the mailbox from which it takes its frames. -/
structure Session where
  viewer : Viewer
  mailbox : Mailbox

namespace Session

def tick (s : Session) (o : Occasion) : Picture × Session :=
  let (picture, viewer, mailbox) :=
    (s.viewer.tick s.mailbox o.accepted o.rejected o.clicked o.screen o.sight).value
  (picture, ⟨viewer, mailbox⟩)

def step (s : Session) : Moment → List Picture × Session
  | .published frame => ([], { s with mailbox := (s.mailbox.publish frame).value.2 })
  | .ticked o => ([(s.tick o).1], (s.tick o).2)

/-- The pictures of some moments, with the session behind them. -/
def run (s : Session) (moments : List Moment) : List Picture × Session :=
  moments.foldl (fun (pictures, s) moment =>
    (pictures ++ (s.step moment).1, (s.step moment).2)) ([], s)

theorem run_concat (s : Session) (moments : List Moment) (moment : Moment) :
    s.run (moments ++ [moment]) =
      ((s.run moments).1 ++ ((s.run moments).2.step moment).1,
        ((s.run moments).2.step moment).2) := by
  rw [run, List.foldl_concat]
  rfl

end Session

namespace Viewer

/-- The display as a tick is about to paint it: the unread frame was taken, and a click cleared the
waterfall. -/
def ready (v : Viewer) (unread : Option Frame) (clicked : Bool) : Viewer :=
  if clicked then (v.receive unread).value.clear.value else (v.receive unread).value

theorem value_receive_some (v : Viewer) (frame : Frame) :
    (v.receive (some frame)).value =
      { v with
        current := some frame, waterfall := (v.waterfall.push frame.values).value,
        stale := true } :=
  rfl

@[simp] theorem settings_ready (v : Viewer) (unread : Option Frame) (clicked : Bool) :
    (v.ready unread clicked).settings = v.settings := by
  cases unread <;> cases clicked <;> rfl

theorem current_ready (v : Viewer) (unread : Option Frame) (clicked : Bool) :
    (v.ready unread clicked).current = unread.or v.current := by
  cases unread <;> cases clicked <;> rfl

theorem stale_ready (v : Viewer) (unread : Option Frame) (clicked : Bool) :
    (v.ready unread clicked).stale = (unread.isSome || clicked || v.stale) := by
  cases unread <;> cases clicked <;> rfl

theorem sameSetup_ready (v : Viewer) (unread : Option Frame) (clicked : Bool) :
    v.waterfall.SameSetup (v.ready unread clicked).waterfall := by
  have received : v.waterfall.SameSetup (v.receive unread).value.waterfall := by
    cases unread with
    | none => rfl
    | some frame =>
      rw [value_receive_some, Waterfall.push]
      exact Waterfall.value_pushed _ _ _ ▸ rfl
  cases clicked with
  | false => exact received
  | true => exact received.trans rfl

theorem shows_ready {v : Viewer} {moments : List Moment} (o : Occasion)
    (shows : v.waterfall.Shows ((Moment.recent moments).map Frame.values)) :
    (v.ready (Moment.waiting none moments) o.clicked).waterfall.Shows
      ((Moment.recent (moments ++ [.ticked o])).map Frame.values) := by
  have received : (v.receive (Moment.waiting none moments)).value.waterfall.Shows
      (((Moment.waiting none moments).toList ++ Moment.recent moments).map Frame.values) := by
    cases Moment.waiting none moments with
    | none => exact shows
    | some frame => exact shows.push frame.values
  cases clicked : o.clicked with
  | false =>
    rw [Moment.recent_concat_tick moments clicked]
    exact received
  | true =>
    rw [Moment.recent_concat_clear moments clicked]
    exact Waterfall.reset_shows received.width_pos received.height_pos received.fits

/-- The screen has the waterfall as it is, unless that is marked as stale. -/
def Sent (pictures : List Picture) (v : Viewer) : Prop :=
  v.stale = false → v.texture = some v.waterfall.pixels ∧ Picture.shown pictures = some v.upload

theorem Sent.ready {pictures : List Picture} {v : Viewer} (sent : Sent pictures v)
    (unread : Option Frame) (clicked : Bool) : Sent pictures (v.ready unread clicked) := by
  intro fresh
  rw [stale_ready, Bool.or_eq_false_iff, Bool.or_eq_false_iff] at fresh
  obtain ⟨⟨nothing, kept⟩, still⟩ := fresh
  cases unread with
  | none => subst kept; exact sent still
  | some frame => cases nothing

theorem Sent.needsUpload {pictures : List Picture} {v : Viewer} (sent : Sent pictures v) :
    v.needsUpload = v.stale := by
  cases stale : v.stale with
  | true => simp [Viewer.needsUpload, stale]
  | false => simp [Viewer.needsUpload, stale, (sent stale).1]

/-- What a tick paints, and the display behind it. -/
def painted (v : Viewer) (screen : Screen) (sight : Sight) : (Caption ⊕ Plots) × Viewer :=
  match v.current with
  | none => (.inl waitingNote, v)
  | some frame => (.inr (v.paint frame screen sight).1, (v.paint frame screen sight).2)

variable (screen : Screen) (sight : Sight)

theorem value_tick (v : Viewer) (mailbox : Mailbox) (accepted rejected : Nat) (clicked : Bool) :
    ∃ status, (v.tick mailbox accepted rejected clicked screen sight).value =
      (picture screen sight status ((v.ready mailbox.unread clicked).painted screen sight).1,
        ((v.ready mailbox.unread clicked).painted screen sight).2, .empty) := by
  refine ⟨Status.line v.label accepted rejected
    ((v.ready mailbox.unread clicked).current.map Frame.receivedAt), ?_⟩
  rw [tick, Mailbox.take_eq, current_ready]
  cases mailbox.unread with
  | some frame => cases clicked <;> rfl
  | none =>
    rcases v with ⟨settings, label, current, waterfall, texture, stale⟩
    cases current <;> cases clicked <;> rfl

theorem painted_snd (v : Viewer) :
    (v.painted screen sight).2 = { v with
      texture := (v.painted screen sight).2.texture
      stale := (v.painted screen sight).2.stale } := by
  rw [painted]
  rcases v with ⟨settings, label, current, waterfall, texture, stale⟩
  cases current with
  | none => rfl
  | some frame =>
    dsimp only [paint]
    split <;> rfl

theorem Sent.painted_fst {pictures : List Picture} {v : Viewer} (sent : Sent pictures v) :
    (v.painted screen sight).1 =
      match v.current with
      | none => .inl waitingNote
      | some frame => .inr (.ofFrame v.settings v.waterfall.newest frame.values screen sight
          (if v.stale then some v.upload else none)) := by
  rw [Viewer.painted]
  cases v.current with
  | none => rfl
  | some frame =>
    dsimp only [paint]
    rw [sent.needsUpload]
    cases v.stale <;> rfl

theorem Sent.stale_painted {pictures : List Picture} {v : Viewer} (sent : Sent pictures v) :
    (v.painted screen sight).2.stale = (v.current.isNone && v.stale) := by
  rw [Viewer.painted]
  cases v.current with
  | none => rfl
  | some frame =>
    dsimp only [paint]
    rw [sent.needsUpload]
    cases stale : v.stale with
    | true => rfl
    | false => exact stale

/-- Painting leaves the screen with the waterfall as it is. -/
theorem Sent.painted {pictures : List Picture} {v : Viewer} (sent : Sent pictures v)
    (status : String) :
    Sent (pictures ++ [picture screen sight status (v.painted screen sight).1])
      (v.painted screen sight).2 := by
  intro fresh
  rw [Picture.shown_concat]
  rw [Viewer.painted] at fresh ⊢
  cases current : v.current with
  | none =>
    simp only [current] at fresh ⊢
    exact sent fresh
  | some frame =>
    simp only [current, paint] at fresh ⊢
    by_cases due : v.needsUpload = true
    · rw [if_pos due]
      exact ⟨rfl, rfl⟩
    · rw [if_neg due] at fresh ⊢
      exact sent fresh

end Viewer

/-- What holds between any two moments of a session that began with the display `start`. -/
structure Fresh (start : Viewer) (moments : List Moment) (pictures : List Picture) (s : Session) :
    Prop where
  settings : s.viewer.settings = start.settings
  setup : start.waterfall.SameSetup s.viewer.waterfall
  unread : s.mailbox.unread = Moment.waiting none moments
  current : s.viewer.current = (Moment.taken none moments).getLast?
  shows : s.viewer.waterfall.Shows ((Moment.recent moments).map Frame.values)
  stale : s.viewer.stale = s.viewer.current.isNone
  sent : s.viewer.Sent pictures

namespace Fresh

variable {start : Viewer} {moments : List Moment} {pictures : List Picture} {s : Session}

theorem published (h : Fresh start moments pictures s) (frame : Frame) :
    Fresh start (moments ++ [.published frame]) pictures
      { s with mailbox := (s.mailbox.publish frame).value.2 } where
  settings := h.settings
  setup := h.setup
  unread := by rw [Mailbox.unread_publish, Moment.waiting_concat_published]
  current := by rw [Moment.taken_concat_published, h.current]
  shows := by rw [Moment.recent_concat_published]; exact h.shows
  stale := h.stale
  sent := h.sent

theorem tick_eq (h : Fresh start moments pictures s) (o : Occasion) :
    ∃ status, s.tick o =
      (Viewer.picture o.screen o.sight status
        ((s.viewer.ready (Moment.waiting none moments) o.clicked).painted o.screen o.sight).1,
        ⟨((s.viewer.ready (Moment.waiting none moments) o.clicked).painted o.screen o.sight).2,
          .empty⟩) := by
  obtain ⟨status, result⟩ :=
    Viewer.value_tick o.screen o.sight s.viewer s.mailbox o.accepted o.rejected o.clicked
  exact ⟨status, by rw [Session.tick, result, h.unread]⟩

theorem stale_ready (h : Fresh start moments pictures s) (o : Occasion) :
    (s.viewer.ready (Moment.waiting none moments) o.clicked).stale =
      ((Moment.waiting none moments).isSome || o.clicked || s.viewer.current.isNone) := by
  rw [Viewer.stale_ready, h.stale]

theorem current_ready (h : Fresh start moments pictures s) (o : Occasion) :
    (s.viewer.ready (Moment.waiting none moments) o.clicked).current =
      (Moment.taken none (moments ++ [.ticked o])).getLast? := by
  rw [Viewer.current_ready, h.current, Moment.taken_concat_ticked, List.getLast?_append]
  cases Moment.waiting none moments <;> rfl

theorem ticked (h : Fresh start moments pictures s) (o : Occasion) :
    Fresh start (moments ++ [.ticked o]) (pictures ++ [(s.tick o).1]) (s.tick o).2 := by
  obtain ⟨status, result⟩ := h.tick_eq o
  have sent := h.sent.ready (Moment.waiting none moments) o.clicked
  have rest := Viewer.painted_snd o.screen o.sight
    (s.viewer.ready (Moment.waiting none moments) o.clicked)
  rw [result]
  refine ⟨?_, ?_, ?_, ?_, ?_, ?_, sent.painted o.screen o.sight status⟩
  · rw [rest]
    exact (Viewer.settings_ready _ _ _).trans h.settings
  · rw [rest]
    exact h.setup.trans (Viewer.sameSetup_ready _ _ _)
  · exact (Moment.waiting_concat_ticked _ _ _).symm
  · rw [rest]
    exact h.current_ready o
  · rw [rest]
    exact Viewer.shows_ready o h.shows
  · rw [sent.stale_painted, rest, h.stale_ready, Viewer.current_ready]
    cases Moment.waiting none moments <;> cases s.viewer.current <;> simp

theorem current_tick (h : Fresh start moments pictures s) (o : Occasion) :
    (s.tick o).2.viewer.current = (Moment.waiting none moments).or s.viewer.current := by
  obtain ⟨status, result⟩ := h.tick_eq o
  rw [result, Viewer.painted_snd]
  exact Viewer.current_ready _ _ _

/-- Before its first frame a display waits, and then it paints the current one. The waterfall is
sent with it if a frame was taken or a clear was clicked in this very tick. -/
theorem body_tick (h : Fresh start moments pictures s) (o : Occasion) :
    (s.tick o).1.body =
      match (s.tick o).2.viewer.current with
      | none => .inl Viewer.waitingNote
      | some frame => .inr (.ofFrame start.settings (s.tick o).2.viewer.waterfall.newest
          frame.values o.screen o.sight (if (Moment.waiting none moments).isSome || o.clicked
            then some (s.tick o).2.viewer.upload else none)) := by
  obtain ⟨status, result⟩ := h.tick_eq o
  have sent := h.sent.ready (Moment.waiting none moments) o.clicked
  have stale := h.stale_ready o
  have current := Viewer.current_ready s.viewer (Moment.waiting none moments) o.clicked
  rw [h.current_tick, result, Viewer.painted_snd, ← current]
  refine (sent.painted_fst o.screen o.sight).trans ?_
  rw [Viewer.settings_ready, h.settings, stale, current]
  cases Moment.waiting none moments with
  | some frame => rfl
  | none =>
    cases s.viewer.current with
    | none => rfl
    | some frame =>
      rw [Option.isNone_some, Bool.or_false]
      rfl

theorem push?_eq (h : Fresh start moments pictures s) (values : List Binary32)
    (few : moments.length + 1 < Word.count) :
    s.viewer.waterfall.push? values = some (s.viewer.waterfall.push values) := by
  apply h.shows.push?_eq
  have count : s.viewer.waterfall.rowsPushed = (Moment.recent moments).length := by
    rw [h.shows.rowsPushed, List.length_map]
  have short := Moment.length_recent_le moments
  omega

theorem step (h : Fresh start moments pictures s) (moment : Moment) :
    Fresh start (moments ++ [moment]) (pictures ++ (s.step moment).1) (s.step moment).2 := by
  cases moment with
  | published frame =>
    rw [Session.step, List.append_nil]
    exact h.published frame
  | ticked o => exact h.ticked o

end Fresh

theorem Session.run_fresh {start : Viewer} (h : Fresh start [] [] ⟨start, .empty⟩)
    (moments : List Moment) :
    Fresh start moments ((Session.mk start .empty).run moments).1
      ((Session.mk start .empty).run moments).2 := by
  induction moments using List.reverseRecOn with
  | nil => exact h
  | append_singleton moments moment ih =>
    rw [run_concat]
    exact ih.step moment

/-- The waterfall fits in memory. -/
def Settings.WaterfallFits (settings : Settings) : Prop :=
  settings.waterfallColumns * settings.waterfallDepth.toNat * Waterfall.pixelBytes ≤
    Word.largestBlock

instance (settings : Settings) : Decidable settings.WaterfallFits :=
  inferInstanceAs (Decidable (_ ≤ _))

theorem Viewer.new?_eq_some {settings : Settings} (label : String) (accepted : settings.Accepted)
    (fits : settings.WaterfallFits) :
    ∃ start : Logged Viewer, Viewer.new? settings label = some start ∧
      start.value = ⟨settings, label, none, Waterfall.new settings.waterfallColumns
        settings.waterfallDepth.toNat settings.newestAt settings.intensity, none, true⟩ ∧
      Fresh start.value [] [] ⟨start.value, .empty⟩ ∧
      start.value.waterfall.width = settings.waterfallColumns ∧
      start.value.waterfall.height = settings.waterfallDepth.toNat := by
  obtain ⟨columns, rows⟩ := accepted.waterfall_pos
  have width : max settings.waterfallColumns 1 = settings.waterfallColumns :=
    Nat.max_eq_left columns
  have height : max settings.waterfallDepth.toNat 1 = settings.waterfallDepth.toNat :=
    Nat.max_eq_left rows
  have word : settings.waterfallColumns * settings.waterfallDepth.toNat < Word.count :=
    calc settings.waterfallColumns * settings.waterfallDepth.toNat
      _ ≤ settings.waterfallColumns * settings.waterfallDepth.toNat * Waterfall.pixelBytes :=
        Nat.le_mul_of_pos_right _ (by decide)
      _ ≤ Word.largestBlock := fits
      _ < Word.count := by decide
  have count : Waterfall.pixelCount? settings.waterfallColumns settings.waterfallDepth.toNat =
      some (settings.waterfallColumns * settings.waterfallDepth.toNat) := by
    rw [Waterfall.pixelCount?, width, height, Word.product?_eq_some_of_lt word]
    exact if_pos (decide_eq_true fits)
  refine ⟨_, by rw [Viewer.new?, Waterfall.new?, count]; rfl, rfl, ?_, width, height⟩
  refine ⟨rfl, rfl, rfl, rfl, Waterfall.new_shows _ _ ?_, rfl, fun fresh => nomatch fresh⟩
  rwa [width, height]

/-- Behind any moments that a word can count, a frame can be pushed into the waterfall cell by cell,
and it comes out as the display pushes it. -/
theorem Session.push?_run (settings : Settings) (label : String) (accepted : settings.Accepted)
    (fits : settings.WaterfallFits) :
    ∃ start : Logged Viewer, Viewer.new? settings label = some start ∧
      ∀ moments : List Moment, moments.length + 1 < Word.count → ∀ values : List Binary32,
        let waterfall := ((Session.mk start.value .empty).run moments).2.viewer.waterfall
        waterfall.push? values = some (waterfall.push values) := by
  obtain ⟨start, new, -, fresh, -⟩ := Viewer.new?_eq_some label accepted fits
  refine ⟨start, new, ?_⟩
  intro moments few values
  exact (Session.run_fresh fresh moments).push?_eq values few

/-- What a tick shows that comes after some moments and some pictures. -/
structure UpToDate (settings : Settings) (moments : List Moment) (o : Occasion) (before : Viewer)
    (pictures : List Picture) (picture : Picture) (after : Viewer) : Prop where
  /-- The current frame is the newest one published since the tick before, if there is one. -/
  current : after.current = (Moment.waiting none moments).or before.current
  setup : after.waterfall.width = settings.waterfallColumns ∧
    after.waterfall.height = settings.waterfallDepth.toNat ∧
    after.waterfall.newest = settings.newestAt
  /-- The waterfall has the frames taken since the last clear, the latest first, and the background
  behind them. -/
  rows : ∀ distance < settings.waterfallDepth.toNat,
    after.waterfall.row? (after.waterfall.rowAt distance) =
      some (match (Moment.recent (moments ++ [.ticked o]))[distance]? with
        | some frame =>
          Row.colours settings.intensity frame.values settings.waterfallColumns
        | none => List.replicate settings.waterfallColumns Waterfall.background)
  /-- The plots are painted once a frame was taken, and they are those of the current one. The
  waterfall is sent with them when a frame was taken or a clear was clicked in this very tick. -/
  body : picture.body =
    match after.current with
    | none => .inl Viewer.waitingNote
    | some frame => .inr (.ofFrame settings settings.newestAt frame.values o.screen o.sight
        (if (Moment.waiting none moments).isSome || o.clicked then some after.upload else none))
  painted : after.current.isSome ↔ Moment.taken none (moments ++ [.ticked o]) ≠ []
  /-- The screen has the waterfall as it is. -/
  shown : after.current.isSome →
    after.texture = some after.waterfall.pixels ∧
    ∃ texture, Picture.shown (pictures ++ [picture]) = some texture ∧
      texture.width = settings.waterfallColumns ∧
      texture.height = settings.waterfallDepth.toNat ∧
      texture.rows.flatten = after.waterfall.pixels

/-- Whatever was published and clicked before, a tick shows the newest frame and the waterfall as
it is. -/
theorem run_upToDate (settings : Settings) (label : String) (accepted : settings.Accepted)
    (fits : settings.WaterfallFits) :
    ∃ start : Logged Viewer, Viewer.new? settings label = some start ∧
      ∀ (moments : List Moment) (o : Occasion),
        let pictures := ((Session.mk start.value .empty).run moments).1
        let before := ((Session.mk start.value .empty).run moments).2
        UpToDate settings moments o before.viewer pictures (before.tick o).1
          (before.tick o).2.viewer := by
  obtain ⟨start, new, begun, fresh, width, height⟩ := Viewer.new?_eq_some label accepted fits
  refine ⟨start, new, ?_⟩
  intro moments o pictures before
  have earlier : Fresh start.value moments pictures before := Session.run_fresh fresh moments
  have later := earlier.ticked o
  have settings_eq : start.value.settings = settings := congrArg Viewer.settings begun
  have curve_eq : (before.tick o).2.viewer.waterfall.curve = settings.intensity :=
    (congrArg Waterfall.curve later.setup).trans (congrArg (·.waterfall.curve) begun)
  have newest_eq : (before.tick o).2.viewer.waterfall.newest = settings.newestAt :=
    (congrArg Waterfall.newest later.setup).trans (congrArg (·.waterfall.newest) begun)
  have width_eq : (before.tick o).2.viewer.waterfall.width = settings.waterfallColumns :=
    (congrArg Waterfall.width later.setup).trans width
  have height_eq : (before.tick o).2.viewer.waterfall.height = settings.waterfallDepth.toNat :=
    (congrArg Waterfall.height later.setup).trans height
  refine ⟨?_, ⟨width_eq, height_eq, newest_eq⟩, ?_, ?_, ?_, ?_⟩
  · exact earlier.current_tick o
  · intro distance inside
    rw [← height_eq] at inside
    rw [later.shows.row distance inside, List.getElem?_map, ← width_eq, ← curve_eq]
    cases (Moment.recent (moments ++ [.ticked o]))[distance]? <;> rfl
  · rw [earlier.body_tick o, settings_eq, newest_eq]
  · rw [later.current, List.getLast?_isSome]
  · intro taken
    have sent := later.sent (by rw [later.stale, ← Option.not_isSome, taken]; rfl)
    exact ⟨sent.1, _, sent.2, width_eq, height_eq, later.shows.flatten_rows⟩

/-- Two columns and two rows. The first frame is replaced before anyone sees it, and the row of the
second one and that of the third are cleared in the tick that takes the third. -/
theorem run_upToDate_cleared :
    let settings : Settings := { Settings.standard with fftSize := 4, waterfallDepth := 2 }
    let quiet : Occasion := ⟨4, 0, false, ⟨1200, 950⟩, .measured⟩
    let moments : List Moment := [.published ⟨0, [1, 2], "a"⟩, .published ⟨1, [2, 1], "b"⟩,
      .ticked quiet, .published ⟨2, [0, 5], "c"⟩, .ticked { quiet with clicked := true },
      .published ⟨3, [3, 0], "d"⟩]
    (settings.Accepted ∧ settings.WaterfallFits) ∧
    ∃ start : Logged Viewer, Viewer.new? settings "demo" = some start ∧
      let after := (((Session.mk start.value .empty).run moments).2.tick quiet).2.viewer
      after.current = some ⟨3, [3, 0], "d"⟩ ∧
      after.waterfall.row? 0 = some (Row.colours .linear [3, 0] 2) ∧
      after.waterfall.row? 1 = some (List.replicate 2 .black) := by
  intro settings quiet moments
  have accepted : settings.Accepted := by decide
  have fits : settings.WaterfallFits := by decide
  obtain ⟨start, new, upToDate⟩ := run_upToDate settings "demo" accepted fits
  refine ⟨⟨accepted, fits⟩, start, new, ?_⟩
  intro after
  obtain ⟨current, ⟨-, -, edge⟩, rows, -, -, -⟩ := upToDate moments quiet
  change after.current = _ at current
  change after.waterfall.newest = .top at edge
  change ∀ distance < 2, after.waterfall.row? (after.waterfall.rowAt distance) = _ at rows
  clear_value after
  have recent : Moment.recent (moments ++ [.ticked quiet]) = [⟨3, [3, 0], "d"⟩] := rfl
  have columns : settings.waterfallColumns = 2 := by decide
  have newest := rows 0 (by decide)
  have older := rows 1 (by decide)
  simp only [Waterfall.rowAt, edge, recent, columns, List.getElem?_cons_zero,
    List.getElem?_cons_succ, List.getElem?_nil] at newest older
  exact ⟨current, newest, older⟩

end SpectrumViewer
