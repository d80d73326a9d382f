import SpectrumViewer.Pattern.Basic

set_option autoImplicit false

/-!
Where a pattern occurs. A text of `n` characters has `n + 1` places, and a list of as many marks
stands for a set of places. A pattern moves marks: it marks the places that are reached from a
marked place by passing over what the pattern stands for.
-/

namespace SpectrumViewer

namespace Pattern

def spots (text : List Char) : List Spot :=
  List.zipWith Spot.mk (none :: text.map some) (text.map some ++ [none])

/-- The places that are marked in either of two lists. -/
def join (marks marks' : List Bool) : List Bool := List.zipWith (· || ·) marks marks'

/-- A number of moves. Once a move changes nothing, no further one does. -/
def moves (move : List Bool → List Bool) : Nat → List Bool → List Bool
  | 0, marks => marks
  | count + 1, marks =>
    let next := move marks
    if next = marks then marks else moves move count next

def upTo (move : List Bool → List Bool) (count : Nat) (marks : List Bool) : List Bool :=
  moves (fun marks => join marks (move marks)) count marks

/-- The marks that a pattern leads to. Without a limit, as many repetitions as there are characters
reach whatever can be reached. -/
def reach (text : List Char) : Pattern → List Bool → List Bool
  | .empty, marks => marks
  | .one set, marks => false :: List.zipWith (fun c here => here && set.contains c) text marks
  | .border b, marks => List.zipWith (fun spot here => here && b.holds spot) (spots text) marks
  | .seq p q, marks => reach text q (reach text p marks)
  | .alt p q, marks => join (reach text p marks) (reach text q marks)
  | .repeated p least most, marks =>
    let further := match most with
      | some most => most - least
      | none => text.length + 1
    upTo (reach text p) further (moves (reach text p) least marks)

/-- Whether a pattern occurs anywhere in a text. -/
def occursIn (p : Pattern) (text : String) : Bool :=
  let cs := text.toList
  (reach cs p (List.replicate (cs.length + 1) true)).any id

@[simp] theorem length_spots (text : List Char) : (spots text).length = text.length + 1 := by
  simp [spots]

theorem length_moves {move : List Bool → List Bool} {n : Nat}
    (h : ∀ marks, marks.length = n → (move marks).length = n) (count : Nat) {marks : List Bool}
    (hm : marks.length = n) : (moves move count marks).length = n := by
  induction count generalizing marks with
  | zero => exact hm
  | succ count ih =>
    simp only [moves]
    split
    · exact hm
    · exact ih (h marks hm)

/-- There stay as many marks as places. -/
theorem length_reach (text : List Char) (p : Pattern) {marks : List Bool}
    (hm : marks.length = text.length + 1) : (reach text p marks).length = text.length + 1 := by
  induction p generalizing marks with
  | empty => exact hm
  | one set => simp [reach, hm]
  | border b => simp [reach, hm]
  | seq p q ihp ihq => exact ihq (ihp hm)
  | alt p q ihp ihq => simp [reach, join, ihp hm, ihq hm]
  | repeated p least most ih =>
    refine length_moves (fun marks hm => ?_) _ (length_moves (fun marks hm => ih hm) _ hm)
    simp [join, hm, ih hm]

end Pattern

end SpectrumViewer
