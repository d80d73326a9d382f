set_option autoImplicit false

/-!
Cells in a row, one behind the other, and two ways to change some of them in place. Both give
nothing where a cell outside is meant.
-/

namespace SpectrumViewer

namespace Cells

variable {α : Type}

/-- Copies the cells from `start` up to `finish` to `target` and behind it. The two places may
overlap: what arrives is what stood there before. -/
def copyWithin? (cells : List α) (start finish target : Nat) : Option (List α) :=
  if start ≤ finish ∧ finish ≤ cells.length ∧ target + (finish - start) ≤ cells.length then
    some (cells.take target ++ (cells.take finish).drop start ++
      cells.drop (target + (finish - start)))
  else none

/-- Writes over the cells from `start` up to `finish`. -/
def overwrite? (cells : List α) (start finish : Nat) (news : List α) : Option (List α) :=
  if start ≤ finish ∧ finish ≤ cells.length ∧ news.length = finish - start then
    some (cells.take start ++ news ++ cells.drop finish)
  else none

theorem overwrite?_append (first olds last : List α) {news : List α}
    (h : news.length = olds.length) :
    overwrite? (first ++ olds ++ last) first.length (first.length + olds.length) news =
      some (first ++ news ++ last) := by
  have start : (first ++ olds ++ last).take first.length = first := by
    rw [List.append_assoc, List.take_left]
  have finish : (first ++ olds ++ last).drop (first.length + olds.length) = last := by
    rw [← List.length_append, List.drop_left]
  rw [overwrite?, if_pos, start, finish]
  simp only [List.length_append]
  omega

end Cells

end SpectrumViewer
