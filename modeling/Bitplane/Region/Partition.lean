import Std.Data.HashMap
import Bitplane.LabelGrid.Basic
import Bitplane.Region.Fill

/-! # Partitions: do labels name the components?

* `Partition.same`: two lists of labels group their places alike, whatever the labels are called;
  background must agree.
* `checkPartition`: a grid labels the set pixels of a picture, and them alone, by component. -/

namespace Bitplane

/-- What keeps a grid from labeling the components of a picture. -/
inductive Violation
  /-- Grid and picture differ in size. -/
  | sizes
  /-- A pixel is set without a label, or clear with one. -/
  | pixel (x y : Nat) (set : Bool) (label : Nat)
  /-- Labels and components do not match. -/
  | components
  deriving DecidableEq

/-- The text of a violation. -/
def Violation.message : Violation → String
  | sizes => "label map and image sizes differ"
  | pixel x y v l => s!"pixel ({x}, {y}) set={v} but label={l}"
  | components => "labels do not match the connected components"

namespace Partition

/-- Two lists of labels group alike, given which labels have been matched so far in each direction:
the first partner of a label stays its only one. -/
def agree (forward backward : Std.HashMap Nat Nat) : List (Nat × Nat) → Bool
  | [] => true
  | (a, b) :: rest =>
    if (a = 0) ≠ (b = 0) then false
    else if a = 0 then agree forward backward rest
    else if (forward[a]?).getD b ≠ b ∨ (backward[b]?).getD a ≠ a then false
    else agree (forward.insert a b) (backward.insert b a) rest

/-- **Two lists of labels group their places alike.** -/
def same (a b : Array Nat) : Bool := a.size == b.size && agree ∅ ∅ (a.toList.zip b.toList)

end Partition

namespace Raster

/-- The cells' pixels are set where their labels are not background; else the first that is not. -/
def checkCells (r : Raster) : List Cell → Except Violation Unit
  | [] => .ok ()
  | c :: cs =>
    if r.isSet c.x c.y = (c.label != 0) then r.checkCells cs
    else .error (.pixel c.x c.y (r.isSet c.x c.y) c.label)

/-- **The grid labels the components of the picture**; else what is wrong. -/
def checkPartition (r : Raster) (g : LabelGrid) (c : Connectivity) : Except Violation Unit := do
  if g.width ≠ r.width ∨ g.height ≠ r.height then .error .sizes
  r.checkCells g.cells
  if Partition.same (r.fill c).1 g.labels then .ok () else .error .components

end Raster

end Bitplane
