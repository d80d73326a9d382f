import Mathlib.Data.List.DropRight
import SpectrumViewer.Waterfall.Grid

set_option autoImplicit false

/-!
The waterfall shows the recent frames and nothing else. A frame that is pushed cell by cell stays
inside the grid and comes out as if it were pushed row by row (`push?_eq`); a grid that shows some
frames, the latest first, then shows the new one before them (`Shows.push`). From there the grid
after any pushes and resets is known (`runAll?_new`).
-/

namespace SpectrumViewer

namespace Waterfall

/-- A grid with at least one cell, with all its cells, and with places that are words. -/
structure Sound (w : Waterfall) : Prop where
  width_pos : 0 < w.width
  height_pos : 0 < w.height
  length_pixels : w.pixels.length = w.height * w.width
  fits : w.height * w.width < Word.count

namespace Sound

variable {w : Waterfall}

theorem older_add_width (s : w.Sound) :
    (w.height - 1) * w.width + w.width = w.height * w.width := by
  rw [← Nat.succ_mul, Nat.succ_eq_add_one, Nat.sub_add_cancel s.height_pos]

theorem length_older (s : w.Sound) : w.pixels.length - w.width = (w.height - 1) * w.width := by
  rw [s.length_pixels, ← s.older_add_width, Nat.add_sub_cancel]

theorem moved_eq (s : w.Sound) :
    Word.product? (w.height - 1) w.width = some ((w.height - 1) * w.width) := by
  have fits := s.fits
  rw [← s.older_add_width] at fits
  exact Word.product?_eq_some_of_lt (by omega)

theorem newestStart_add_width_le (s : w.Sound) :
    w.newestRow * w.width + w.width ≤ w.height * w.width := by
  rw [← s.older_add_width]
  unfold newestRow
  split <;> omega

theorem shift?_eq (s : w.Sound) :
    w.shift? = some (match w.newest with
      | .top => w.pixels.take w.width ++ w.pixels.take ((w.height - 1) * w.width)
      | .bottom => w.pixels.drop w.width ++ w.pixels.drop ((w.height - 1) * w.width)) := by
  have total := s.length_pixels
  have older := s.older_add_width
  rw [shift?, s.moved_eq]
  cases w.newest with
  | top =>
    simp only [Option.bind_eq_bind, Option.bind_some, Cells.copyWithin?]
    rw [if_pos (by omega), List.drop_zero, List.drop_eq_nil_of_le (by omega), List.append_nil]
  | bottom =>
    simp only [Option.bind_eq_bind, Option.bind_some, Cells.copyWithin?]
    rw [if_pos (by omega), List.take_zero, List.nil_append, List.take_length, Nat.zero_add,
      s.length_older]

/-- No cell outside the grid is touched, and the cells come out as the rows do. -/
theorem scroll?_eq (s : w.Sound) {row : List Colour} (h : row.length = w.width) :
    w.scroll? row = some (w.scroll row) := by
  have total := s.length_pixels
  have older := s.older_add_width
  have fits := s.fits
  have inside := s.newestStart_add_width_le
  have start : Word.product? w.newestRow w.width = some (w.newestRow * w.width) :=
    Word.product?_eq_some_of_lt (by omega)
  have finish : Word.sum? (w.newestRow * w.width) w.width =
      some (w.newestRow * w.width + w.width) := Word.sum?_eq_some_of_lt (by omega)
  rw [scroll?, s.shift?_eq, start]
  simp only [Option.bind_eq_bind, Option.bind_some]
  rw [finish, Option.bind_some, newestRow, scroll]
  cases w.newest with
  | top =>
    have vacated : (w.pixels.take w.width).length = w.width := by
      rw [List.length_take]
      omega
    have written := Cells.overwrite?_append [] (w.pixels.take w.width)
      (w.pixels.take ((w.height - 1) * w.width)) (h.trans vacated.symm)
    rw [vacated] at written
    simpa using written
  | bottom =>
    have kept : (w.pixels.drop w.width).length = (w.height - 1) * w.width := by
      rw [List.length_drop, s.length_older]
    have vacated : (w.pixels.drop ((w.height - 1) * w.width)).length = w.width := by
      rw [List.length_drop]
      omega
    have written := Cells.overwrite?_append (w.pixels.drop w.width)
      (w.pixels.drop ((w.height - 1) * w.width)) [] (h.trans vacated.symm)
    rw [kept, vacated] at written
    simpa using written

theorem push?_eq (s : w.Sound) (values : List Binary32) (h : w.rowsPushed + 1 < Word.count) :
    w.push? values = some (w.push values) := by
  rw [push?, s.scroll?_eq (Row.length_colours w.curve values w.width)]
  simp only [Option.bind_eq_bind, Option.bind_some]
  rw [Word.sum?_eq_some_of_lt h]
  rfl

theorem length_scroll (s : w.Sound) {row : List Colour} (h : row.length = w.width) :
    (w.scroll row).length = w.height * w.width := by
  have total := s.length_pixels
  have older := s.older_add_width
  unfold scroll
  split
  · simp only [List.length_append, List.length_take]
    omega
  · simp only [List.length_append, List.length_drop]
    omega

end Sound

@[simp] theorem value_pushed (w : Waterfall) (pixels : List Colour) (rowsPushed : Nat) :
    (w.pushed pixels rowsPushed).value = { w with pixels, rowsPushed } := by
  unfold pushed
  by_cases due : rowsPushed % recordInterval = 0 <;> simp [due]

/-- The row that a frame is shown on once `distance` frames came after it. -/
def rowAt (w : Waterfall) (distance : Nat) : Nat :=
  match w.newest with
  | .top => distance
  | .bottom => w.height - 1 - distance

theorem rowAt_lt {w : Waterfall} {distance : Nat} (h : distance < w.height) :
    w.rowAt distance < w.height := by
  unfold rowAt
  split <;> omega

theorem row?_rowAt {w : Waterfall} {distance : Nat} (h : distance < w.height) :
    w.row? (w.rowAt distance) =
      some ((w.pixels.drop (w.rowAt distance * w.width)).take w.width) :=
  if_pos (rowAt_lt h)

theorem Sound.scroll_row_zero {w : Waterfall} (s : w.Sound) {row : List Colour}
    (h : row.length = w.width) :
    ((w.scroll row).drop (w.rowAt 0 * w.width)).take w.width = row := by
  rw [rowAt, scroll]
  cases w.newest with
  | top => simp [← h]
  | bottom =>
    have kept : (w.pixels.drop w.width).length = (w.height - 1 - 0) * w.width := by
      rw [List.length_drop, s.length_older, Nat.sub_zero]
    dsimp only
    rw [← kept, List.drop_left, ← h, List.take_length]

/-- Every other row is the one that stood a step closer to the newest edge. -/
theorem Sound.scroll_row_succ {w : Waterfall} (s : w.Sound) {row : List Colour}
    (h : row.length = w.width) {distance : Nat} (inside : distance + 1 < w.height) :
    ((w.scroll row).drop (w.rowAt (distance + 1) * w.width)).take w.width =
      (w.pixels.drop (w.rowAt distance * w.width)).take w.width := by
  rw [rowAt, rowAt, scroll]
  cases w.newest with
  | top =>
    have room : (distance + 1) * w.width ≤ (w.height - 1) * w.width :=
      Nat.mul_le_mul_right _ (by omega)
    have behind : (distance + 1) * w.width = row.length + distance * w.width := by
      rw [h, Nat.succ_mul, Nat.add_comm]
    dsimp only
    rw [behind, ← List.drop_drop, List.drop_left, List.drop_take, List.take_take]
    rw [Nat.min_eq_left (by omega)]
  | bottom =>
    obtain ⟨index, last⟩ : ∃ index, w.height - 1 = distance + (index + 1) :=
      ⟨w.height - 1 - distance - 1, by omega⟩
    have kept : (w.pixels.drop w.width).length = (w.height - 1) * w.width := by
      rw [List.length_drop, s.length_older]
    have room : (index + 1) * w.width ≤ (w.height - 1) * w.width :=
      Nat.mul_le_mul_right _ (by omega)
    have now : w.height - 1 - (distance + 1) = index := by omega
    have before : w.height - 1 - distance = index + 1 := by omega
    have place : (index + 1) * w.width = w.width + index * w.width := by
      rw [Nat.succ_mul, Nat.add_comm]
    dsimp only
    rw [now, before, List.drop_append_of_le_length (by omega),
      List.take_append_of_le_length (by rw [List.length_drop]; omega), List.drop_drop, place]

/-- What a row shows that belongs to a frame, or to none. -/
def rowOf (w : Waterfall) : Option (List Binary32) → List Colour
  | some values => Row.colours w.curve values w.width
  | none => List.replicate w.width background

/-- The grid shows these frames, the latest first, as far as it has rows, and the background on
the rows behind them. -/
structure Shows (w : Waterfall) (frames : List (List Binary32)) : Prop extends w.Sound where
  rowsPushed : w.rowsPushed = frames.length
  row : ∀ distance < w.height, w.row? (w.rowAt distance) = some (w.rowOf frames[distance]?)

namespace Shows

variable {w : Waterfall} {frames : List (List Binary32)}

theorem push (shows : w.Shows frames) (values : List Binary32) :
    (w.push values).value.Shows (values :: frames) := by
  have length : (Row.colours w.curve values w.width).length = w.width :=
    Row.length_colours w.curve values w.width
  rw [Waterfall.push, value_pushed]
  refine ⟨⟨shows.width_pos, shows.height_pos, shows.length_scroll length, shows.fits⟩, ?_, ?_⟩
  · simp [shows.rowsPushed]
  · intro distance inside
    rw [row?_rowAt inside]
    change distance < w.height at inside
    cases distance with
    | zero => exact congrArg some (shows.scroll_row_zero length)
    | succ distance =>
      have before := shows.row distance (by omega)
      rw [row?_rowAt (by omega)] at before
      rw [List.getElem?_cons_succ]
      exact (congrArg some (shows.scroll_row_succ length inside)).trans before

end Shows

theorem reset_shows {w : Waterfall} (width_pos : 0 < w.width) (height_pos : 0 < w.height)
    (fits : w.height * w.width < Word.count) : w.reset.Shows [] := by
  refine ⟨⟨width_pos, height_pos, ?_, fits⟩, rfl, ?_⟩
  · simp [reset, Nat.mul_comm]
  · intro distance inside
    rw [row?_rowAt inside]
    have room : (w.rowAt distance + 1) * w.width ≤ w.height * w.width :=
      Nat.mul_le_mul_right _ (rowAt_lt inside)
    rw [Nat.succ_mul] at room
    have enough : min w.width (w.width * w.height - w.rowAt distance * w.width) = w.width := by
      rw [Nat.mul_comm w.width w.height]
      omega
    simp only [reset, List.drop_replicate, List.take_replicate]
    exact congrArg (some <| List.replicate · background) enough

/-- What can be done to a waterfall. -/
inductive Operation where
  | push (values : List Binary32)
  | reset
  deriving DecidableEq, Repr

namespace Operation

def perform? (w : Waterfall) : Operation → Option Waterfall
  | push values => (w.push? values).map Logged.value
  | reset => some w.reset

def values? : Operation → Option (List Binary32)
  | push values => some values
  | reset => none

/-- The frames pushed since the last reset, the latest first. -/
def recent (operations : List Operation) : List (List Binary32) :=
  ((operations.rtakeWhile fun o => o ≠ reset).filterMap values?).reverse

theorem recent_concat_push (operations : List Operation) (values : List Binary32) :
    recent (operations ++ [push values]) = values :: recent operations := by
  rw [recent, List.rtakeWhile_concat, if_pos (by simp), List.filterMap_append,
    List.reverse_append]
  rfl

theorem recent_concat_reset (operations : List Operation) :
    recent (operations ++ [reset]) = [] := by
  rw [recent, List.rtakeWhile_concat, if_neg (by simp)]
  rfl

theorem length_recent_le (operations : List Operation) :
    (recent operations).length ≤ operations.length := by
  rw [recent, List.length_reverse]
  exact (List.length_filterMap_le _ _).trans (List.rtakeWhile_suffix _ _).length_le

end Operation

/-- The waterfall behind some operations, unless one of them failed. -/
def runAll? (w : Waterfall) : List Operation → Option Waterfall
  | [] => some w
  | o :: rest => (o.perform? w).bind (runAll? · rest)

theorem runAll?_append (w : Waterfall) (first second : List Operation) :
    w.runAll? (first ++ second) = (w.runAll? first).bind (runAll? · second) := by
  induction first generalizing w with
  | nil => rfl
  | cons o rest ih =>
    rw [List.cons_append, runAll?, runAll?, Option.bind_assoc]
    exact congrArg _ (funext ih)

/-- Only the grid and the count are not what they were. -/
def SameSetup (w v : Waterfall) : Prop :=
  v = { w with pixels := v.pixels, rowsPushed := v.rowsPushed }

theorem SameSetup.trans {u v w : Waterfall} (first : u.SameSetup v) (second : v.SameSetup w) :
    u.SameSetup w := by
  rw [SameSetup] at first second ⊢
  rw [second, first]

/-- One operation takes a grid that shows some frames to one that shows what it should. -/
theorem Shows.perform? {w : Waterfall} {operations : List Operation}
    (shows : w.Shows (Operation.recent operations)) (o : Operation)
    (few : operations.length + 1 < Word.count) :
    ∃ v, o.perform? w = some v ∧ w.SameSetup v ∧
      v.Shows (Operation.recent (operations ++ [o])) := by
  cases o with
  | push values =>
    have short := Operation.length_recent_le operations
    have counted := shows.rowsPushed
    refine ⟨(w.push values).value, ?_, ?_, ?_⟩
    · rw [Operation.perform?, shows.push?_eq values (by omega)]
      rfl
    · rw [Waterfall.push, value_pushed]
      rfl
    · rw [Operation.recent_concat_push]
      exact shows.push values
  | reset =>
    refine ⟨w.reset, rfl, rfl, ?_⟩
    rw [Operation.recent_concat_reset]
    exact reset_shows shows.width_pos shows.height_pos shows.fits

theorem new_shows {width height : Nat} (newest : NewestEdge) (curve : Intensity)
    (fits : max width 1 * max height 1 < Word.count) :
    (new width height newest curve).Shows [] := by
  apply reset_shows
  · exact Nat.lt_of_lt_of_le Nat.one_pos (Nat.le_max_right width 1)
  · exact Nat.lt_of_lt_of_le Nat.one_pos (Nat.le_max_right height 1)
  · rwa [Nat.mul_comm]

theorem runAll?_new_shows {width height : Nat} (newest : NewestEdge) (curve : Intensity)
    (operations : List Operation) (fits : max width 1 * max height 1 < Word.count)
    (few : operations.length < Word.count) :
    ∃ w, (new width height newest curve).runAll? operations = some w ∧
      (new width height newest curve).SameSetup w ∧ w.Shows (Operation.recent operations) := by
  induction operations using List.reverseRecOn with
  | nil => exact ⟨_, rfl, rfl, new_shows newest curve fits⟩
  | append_singleton operations o ih =>
    rw [List.length_append, List.length_singleton] at few
    obtain ⟨w, reached, same, shows⟩ := ih (by omega)
    obtain ⟨v, applied, changed, shown⟩ := shows.perform? o few
    refine ⟨v, ?_, same.trans changed, shown⟩
    rw [runAll?_append, reached, Option.bind_some, runAll?, applied]
    rfl

/-- Whatever was pushed and reset, no operation fails, nothing but the grid and the count changes,
and the grid shows the frames pushed since the last reset, the latest at the newest edge, with the
background behind them. -/
theorem runAll?_new (width height : Nat) (newest : NewestEdge) (curve : Intensity)
    (operations : List Operation) (fits : max width 1 * max height 1 < Word.count)
    (few : operations.length < Word.count) :
    ∃ w, (new width height newest curve).runAll? operations = some w ∧
      w = { new width height newest curve with
        pixels := w.pixels, rowsPushed := (Operation.recent operations).length } ∧
      w.pixels.length = max width 1 * max height 1 ∧
      ∀ distance < max height 1, w.row? (w.rowAt distance) =
        some (match (Operation.recent operations)[distance]? with
          | some values => Row.colours curve values (max width 1)
          | none => List.replicate (max width 1) background) := by
  obtain ⟨w, reached, same, shows⟩ := runAll?_new_shows newest curve operations fits few
  have width_eq : w.width = max width 1 := congrArg Waterfall.width same
  have height_eq : w.height = max height 1 := congrArg Waterfall.height same
  have curve_eq : w.curve = curve := congrArg Waterfall.curve same
  refine ⟨w, reached, ?_, ?_, ?_⟩
  · rw [← shows.rowsPushed]
    exact same
  · rw [shows.length_pixels, width_eq, height_eq, Nat.mul_comm]
  · intro distance inside
    rw [shows.row distance (by omega)]
    cases (Operation.recent operations)[distance]? with
    | none => rw [rowOf, width_eq]
    | some values => rw [rowOf, width_eq, curve_eq]

/-- A grid of two rows: a frame that a reset erased, one without bins, and one with a single bin
at the lower edge. -/
theorem runAll?_new_two_rows :
    (max 0 1 * max 2 1 < Word.count ∧ 4 < Word.count) ∧
    ∃ w, (new 0 2 .bottom .linear).runAll? [.push [1], .reset, .push [], .push [2]] = some w ∧
      w.rowsPushed = 2 ∧ w.row? 0 = some (Row.colours .linear [] 1) ∧
      w.row? 1 = some (Row.colours .linear [2] 1) := by
  refine ⟨by decide, ?_⟩
  obtain ⟨w, reached, same, -, rows⟩ :=
    runAll?_new 0 2 .bottom .linear [.push [1], .reset, .push [], .push [2]]
      (by decide) (by decide)
  have edge : w.newest = .bottom := congrArg Waterfall.newest same
  have height : w.height = 2 := congrArg Waterfall.height same
  have last := rows 0 (by decide)
  have first := rows 1 (by decide)
  simp only [rowAt, edge, height] at first last
  exact ⟨w, reached, congrArg Waterfall.rowsPushed same, first, last⟩

end Waterfall

end SpectrumViewer
