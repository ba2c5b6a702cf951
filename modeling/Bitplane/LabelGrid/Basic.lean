import Bitplane.Raster.Basic

/-! # Label grids: one label for every pixel

Label `0` is background; any other names a component.

* `blank?`, `ofLabels?`: makers.
* `get?`, `row?`, `cells`: the labels at a point, of a row, and all of them with their points.
* `update`: a row-wise pass.
* `hexText`: a drawing of the grid, two hexadecimal digits to a label. -/

namespace Bitplane

/-- **One label for every pixel**, row by row. -/
structure LabelGrid where
  width : Nat
  height : Nat
  labels : Array Nat
  width_pos : 0 < width
  height_pos : 0 < height
  size_labels : labels.size = width * height

/-- A labelled point of a grid. -/
structure Cell where
  x : Nat
  y : Nat
  label : Nat
  deriving DecidableEq

namespace LabelGrid

theorem eq_iff (a b : LabelGrid) :
    a = b ↔ a.width = b.width ∧ a.height = b.height ∧ a.labels = b.labels := by
  cases a; cases b; simp

instance : DecidableEq LabelGrid := fun a b => decidable_of_iff' _ (eq_iff a b)

/-- The grid of the given labels, refused for a side of zero or a wrong number of labels. -/
def ofLabels? (width height : Nat) (labels : Array Nat) : Except Raster.Error LabelGrid :=
  if hw : 0 < width then
    if hh : 0 < height then
      if hl : labels.size = width * height then .ok ⟨width, height, labels, hw, hh, hl⟩
      else .error (.bufferSize (width * height) labels.size)
    else .error (.invalidDimension width height)
  else .error (.invalidDimension width height)

/-- The grid that is all background, refused for a side of zero. -/
def blank? (width height : Nat) : Except Raster.Error LabelGrid :=
  ofLabels? width height (Array.replicate (width * height) 0)

/-- A row-wise pass over the labels. -/
def update (s : Strategy) (f : Nat → List Nat → List Nat) (g : LabelGrid) : LabelGrid :=
  { g with
    labels := Rows.update s g.width f g.labels
    size_labels := by rw [Rows.size_update]; exact g.size_labels }

/-- The labels of row `y`. -/
def row (g : LabelGrid) (y : Nat) : List Nat := Rows.rowOf g.width g.labels y

/-- The labels of row `y`, if there is one. -/
def row? (g : LabelGrid) (y : Nat) : Option (List Nat) :=
  if y < g.height then some (g.row y) else none

/-- All rows from the top. -/
def rows (g : LabelGrid) : List (List Nat) := (List.range g.height).map g.row

/-- The label at `(x, y)`, none outside the grid. -/
def get? (g : LabelGrid) (x y : Nat) : Option Nat :=
  if x < g.width ∧ y < g.height then g.labels[y * g.width + x]? else none

/-- The grid with the label at place `i` written; none if there is no such place. -/
def setAt? (g : LabelGrid) (i label : Nat) : Option LabelGrid :=
  if h : i < g.labels.size then
    some { g with
      labels := g.labels.set i label h
      size_labels := by rw [Array.size_set]; exact g.size_labels }
  else none

/-- The largest label, `0` if all is background. -/
def maxLabel (g : LabelGrid) : Nat := g.labels.foldl max 0

/-- All points with their labels, row by row. -/
def cells (g : LabelGrid) : List Cell :=
  g.labels.toList.zipIdx.map fun li => ⟨li.2 % g.width, li.2 / g.width, li.1⟩

/-! ## Drawing -/

/-- A label in hexadecimal, at least two digits; background is two blanks. -/
def hexDigits (label : Nat) : List Char :=
  if label = 0 then [' ', ' ']
  else
    let ds := Nat.toDigits 16 label
    List.replicate (2 - ds.length) '0' ++ ds

/-- A row as a line of text. -/
def hexLine (row : List Nat) : List Char := row.flatMap hexDigits ++ ['\n']

/-- **The grid as text**, a line for every row. -/
def hexText (g : LabelGrid) : String := String.ofList (g.rows.flatMap hexLine)

end LabelGrid

end Bitplane
