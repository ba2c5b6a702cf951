import Bitplane.Region.Labeling

/-! # Boxes: components cut out of a grid

The box of a component is the least rectangle that holds it, with a mask of its pixels. The mask
starts at the first pixel of the source byte that holds the leftmost column, so that its bytes line
up with those of the source.

* `sizes`: the number of pixels of every component.
* `boxes`: the box of every component that has pixels, in the order of labels.

Both refuse a grid with a label above the stated number of components, and name the first one. -/

namespace Bitplane.Region

/-- **A component cut out.** -/
structure Box where
  label : Nat
  /-- The leftmost column. -/
  x : Nat
  /-- The topmost row. -/
  y : Nat
  /-- The byte of a source row that holds column `x`. -/
  xByte : Nat
  width : Nat
  height : Nat
  pixelCount : Nat
  /-- The pixels, from column `8 · xByte` and row `y` on. -/
  mask : Raster
  deriving DecidableEq

/-- The box's component has the pixel `(x, y)` of the source. -/
def Box.contains (b : Box) (x y : Nat) : Bool :=
  if x < 8 * b.xByte ∨ y < b.y then false else b.mask.isSet (x - 8 * b.xByte) (y - b.y)

/-- The columns and rows that a set of cells spans. -/
structure Extent where
  minX : Nat
  minY : Nat
  maxX : Nat
  maxY : Nat

/-- The extent of one cell. -/
def Extent.of (c : Cell) : Extent := ⟨c.x, c.y, c.x, c.y⟩

/-- An extent widened to hold a cell. -/
def Extent.add (e : Extent) (c : Cell) : Extent :=
  ⟨min e.minX c.x, min e.minY c.y, max e.maxX c.x, max e.maxY c.y⟩

/-- The box of the cells `c :: cs` of a label. -/
def boxOf (label : Nat) (c : Cell) (cs : List Cell) : Except Error Box := do
  let e := cs.foldl Extent.add (Extent.of c)
  let xByte := e.minX / 8
  let height := e.maxY + 1 - e.minY
  let blank ← (Raster.blank? (e.maxX + 1 - 8 * xByte) height).mapError .raster
  return {
    label, xByte, height
    x := e.minX
    y := e.minY
    width := e.maxX + 1 - e.minX
    pixelCount := cs.length + 1
    mask := (c :: cs).foldl (fun m c => m.put (c.x - 8 * xByte) (c.y - e.minY) true) blank }

/-- The boxes of labels `label`, `label + 1`, …, whose cells are given; a label without cells has
none. -/
def boxesFrom (label : Nat) : List (List Cell) → Except Error (List Box)
  | [] => .ok []
  | [] :: rest => boxesFrom (label + 1) rest
  | (c :: cs) :: rest => do
    let b ← boxOf label c cs
    let bs ← boxesFrom (label + 1) rest
    return b :: bs

/-- The labels of cells are at most `count`; else the first that is not is named. -/
def checkLabels (count : Nat) : List Cell → Except Error Unit
  | [] => .ok ()
  | c :: cs =>
    if count < c.label then .error (.labelOutOfRange c.label count) else checkLabels count cs

/-- The cells of each label `0, …, count`, in the order of the list. -/
def cellsByLabel (count : Nat) (cells : List Cell) : Array (List Cell) :=
  cells.foldr (fun c slots => slots.modify c.label (c :: ·)) (Array.replicate (count + 1) [])

/-- One more label counted, background aside. -/
def countLabel (count : Nat) (sizes : Array Nat) (l : Nat) : Except Error (Array Nat) :=
  if l = 0 then .ok sizes
  else if count < l then .error (.labelOutOfRange l count)
  else .ok (sizes.modify (l - 1) (· + 1))

end Bitplane.Region

namespace Bitplane

open Region

/-- **The number of pixels of every component** `1, …, count`. -/
def LabelGrid.sizes (g : LabelGrid) (count : Nat) : Except Region.Error (List Nat) := do
  let sizes ← g.labels.toList.foldlM (countLabel count) (Array.replicate count 0)
  return sizes.toList

/-- **The boxes of the components** `1, …, count` that have pixels. -/
def LabelGrid.boxes (g : LabelGrid) (count : Nat) : Except Region.Error (List Box) := do
  checkLabels count g.cells
  boxesFrom 1 ((cellsByLabel count g.cells).toList.drop 1)

/-- **The components of a picture**, cut out. -/
def Raster.components (o : Options) (r : Raster) : Except Region.Error (List Box) := do
  let l ← r.label o
  l.grid.boxes l.count

end Bitplane
