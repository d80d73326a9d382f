import SpectrumViewer.Log
import SpectrumViewer.Number.Word
import SpectrumViewer.Waterfall.Cells
import SpectrumViewer.Waterfall.Row

set_option autoImplicit false

/-!
The waterfall: a grid of colours, row by row, with the latest frame at one edge and the frames
before it in the rows behind. A frame that is pushed moves every row one step away from the
newest edge, and the row furthest from it falls out.
-/

namespace SpectrumViewer

/-- The edge at which the newest row appears. -/
inductive NewestEdge where
  | top
  | bottom
  deriving DecidableEq, Repr

structure Waterfall where
  width : Nat
  height : Nat
  newest : NewestEdge
  curve : Intensity
  pixels : List Colour
  rowsPushed : Nat
  deriving DecidableEq, Repr

namespace Waterfall

/-- What rows without a frame show. -/
def background : Colour := .black

def reset (w : Waterfall) : Waterfall :=
  { w with pixels := List.replicate (w.width * w.height) background, rowsPushed := 0 }

/-- An empty waterfall, at least one pixel wide and high. -/
def new (width height : Nat) (newest : NewestEdge) (curve : Intensity) : Waterfall :=
  reset ⟨max width 1, max height 1, newest, curve, [], 0⟩

/-- Octets of a pixel in memory. -/
def pixelBytes : Nat := 4

/-- The number of pixels of a waterfall, if it is a word and no larger than a block of memory
can be. -/
def pixelCount? (width height : Nat) : Option Nat :=
  (Word.product? (max width 1) (max height 1)).filter
    fun pixels => pixels * pixelBytes ≤ Word.largestBlock

/-- An empty waterfall, if there can be one of this size. -/
def new? (width height : Nat) (newest : NewestEdge) (curve : Intensity) : Option Waterfall :=
  (pixelCount? width height).map fun _ => new width height newest curve

/-- The row that the next frame is written to. -/
def newestRow (w : Waterfall) : Nat :=
  match w.newest with
  | .top => 0
  | .bottom => w.height - 1

def row? (w : Waterfall) (index : Nat) : Option (List Colour) :=
  if index < w.height then some ((w.pixels.drop (index * w.width)).take w.width) else none

def rows (w : Waterfall) : List (List Colour) := (List.range w.height).filterMap w.row?

/-- The cells of the grid after every row but the last one moved a step away from the newest edge.
The vacated row still shows what it showed. -/
def shift? (w : Waterfall) : Option (List Colour) := do
  let moved ← Word.product? (w.height - 1) w.width
  match w.newest with
  | .top => Cells.copyWithin? w.pixels 0 moved w.width
  | .bottom => Cells.copyWithin? w.pixels w.width w.pixels.length 0

/-- The cells of the grid after a new row came in. Nothing comes of it where a place is no word or
lies outside the grid. -/
def scroll? (w : Waterfall) (row : List Colour) : Option (List Colour) := do
  let shifted ← w.shift?
  let start ← Word.product? w.newestRow w.width
  let finish ← Word.sum? start w.width
  Cells.overwrite? shifted start finish row

/-- The grid after a new row came in, row by row. -/
def scroll (w : Waterfall) (row : List Colour) : List Colour :=
  match w.newest with
  | .top => row ++ w.pixels.take ((w.height - 1) * w.width)
  | .bottom => w.pixels.drop w.width ++ row

/-- Rows between two records of progress. -/
def recordInterval : Nat := 100

/-- The waterfall with the grid and the count that a frame brought. -/
def pushed (w : Waterfall) (pixels : List Colour) (rowsPushed : Nat) : Logged Waterfall := do
  if rowsPushed % recordInterval = 0 then
    Logged.log .debug .waterfall s!"{rowsPushed} rows pushed ({w.width}x{w.height})"
  return { w with pixels, rowsPushed }

/-- Adds a frame, cell by cell. -/
def push? (w : Waterfall) (values : List Binary32) : Option (Logged Waterfall) := do
  let pixels ← w.scroll? (Row.colours w.curve values w.width)
  let rowsPushed ← Word.sum? w.rowsPushed 1
  return w.pushed pixels rowsPushed

/-- Adds a frame, row by row. -/
def push (w : Waterfall) (values : List Binary32) : Logged Waterfall :=
  w.pushed (w.scroll (Row.colours w.curve values w.width)) (w.rowsPushed + 1)

end Waterfall

end SpectrumViewer
