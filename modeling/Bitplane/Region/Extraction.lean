import Bitplane.Region.Box

/-! # Cutting out in two passes

How the components are cut out of a grid in words of 32 and 64 bits, with two passes over the cells.
The first collects the extent of every label. Then each label that has cells gets a box with a blank
mask, and a table of *slots* says at which place of the list. The second pass draws every cell into
the mask of its label's box.

A step is *out of range* if a number does not fit its word, if the second of two numbers to be
subtracted is the larger, or if there is nothing at a place that is read or written. -/

namespace Bitplane.Region

/-- Why the passes end early. -/
inductive Halt
  /-- The grid is refused. -/
  | refused (e : Error)
  /-- A step is out of range. -/
  | outOfRange
  deriving DecidableEq

/-- What there must be; else the step is out of range. -/
def require {α : Type} : Option α → Except Halt α
  | some v => .ok v
  | none => .error .outOfRange

/-! ## Words -/

/-- The number of words of 32 bits. -/
def wordLimit : Nat := 0x100000000

/-- The number of words of 64 bits. -/
def longLimit : Nat := 0x10000000000000000

namespace Word

/-- A sum that stays below the limit. -/
def add? (limit a b : Nat) : Option Nat := if a + b < limit then some (a + b) else none

/-- A product that stays below the limit. -/
def mul? (limit a b : Nat) : Option Nat := if a * b < limit then some (a * b) else none

/-- A difference that is not negative. -/
def sub? (a b : Nat) : Option Nat := if b ≤ a then some (a - b) else none

end Word

/-! ## Extents -/

/-- The extent of the cells of a label, and their number. -/
structure Tally where
  extent : Extent
  pixels : Nat

/-- No cell; the extent is one that any cell replaces. -/
def Tally.empty : Tally := ⟨⟨wordLimit - 1, wordLimit - 1, 0, 0⟩, 0⟩

/-- One more cell. -/
def Tally.add? (t : Tally) (c : Cell) : Except Halt Tally := do
  let n ← require (Word.add? longLimit t.pixels 1)
  return ⟨t.extent.add c, n⟩

/-- One more cell tallied, background aside. -/
def tallyCell (count : Nat) (ts : Array Tally) (c : Cell) : Except Halt (Array Tally) :=
  if c.label = 0 then .ok ts
  else if count < c.label then .error (.refused (.labelOutOfRange c.label count))
  else do
    let t ← require ts[c.label - 1]?
    let t ← t.add? c
    return ts.setIfInBounds (c.label - 1) t

/-! ## Boxes -/

/-- The box of a label, its mask blank. -/
def Tally.box? (t : Tally) (label : Nat) : Except Halt Box := do
  let e := t.extent
  let xByte := e.minX / 8
  let right ← require (Word.add? wordLimit e.maxX 1)
  let maskX ← require (Word.mul? wordLimit xByte 8)
  let maskWidth ← require (Word.sub? right maskX)
  let rise ← require (Word.sub? e.maxY e.minY)
  let height ← require (Word.add? wordLimit rise 1)
  let span ← require (Word.sub? e.maxX e.minX)
  let width ← require (Word.add? wordLimit span 1)
  let mask ← (Raster.blank? maskWidth height).mapError fun e => .refused (.raster e)
  return { label, xByte, width, height, mask, x := e.minX, y := e.minY, pixelCount := t.pixels }

/-- The boxes of the labels passed, and the place of each label's box if it has one. -/
structure BoxTable where
  boxes : Array Box
  slots : Array (Option Nat)

/-- The next label passed: it gets a box if it has cells. -/
def BoxTable.pass? (b : BoxTable) (t : Tally) : Except Halt BoxTable :=
  if t.pixels = 0 then .ok { b with slots := b.slots.push none }
  else do
    let label ← require (Word.add? wordLimit b.slots.size 1)
    let box ← t.box? label
    return ⟨b.boxes.push box, b.slots.push (some b.boxes.size)⟩

/-- A cell drawn into the mask of its label's box, background aside. -/
def drawCell (slots : Array (Option Nat)) (boxes : Array Box) (c : Cell) :
    Except Halt (Array Box) :=
  if c.label = 0 then .ok boxes
  else do
    let slot ← require slots[c.label - 1]?
    let k ← require slot
    let b ← require boxes[k]?
    let maskX ← require (Word.mul? wordLimit b.xByte 8)
    let x ← require (Word.sub? c.x maskX)
    let y ← require (Word.sub? c.y b.y)
    let mask ← require (b.mask.put? x y true)
    return boxes.setIfInBounds k { b with mask }

end Bitplane.Region

namespace Bitplane

open Region

/-- **The boxes of the components** `1, …, count` that have pixels, cut out in two passes. -/
def LabelGrid.extract (g : LabelGrid) (count : Nat) : Except Halt (List Box) := do
  let tallies ← g.cells.foldlM (tallyCell count) (Array.replicate count .empty)
  let table ← tallies.toList.foldlM BoxTable.pass? ⟨#[], #[]⟩
  let boxes ← g.cells.foldlM (drawCell table.slots) table.boxes
  return boxes.toList

end Bitplane
