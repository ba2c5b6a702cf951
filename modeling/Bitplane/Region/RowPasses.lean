import Bitplane.Region.Extraction
import Bitplane.Rows.Failing

/-! # Passes over rows in words

How rows of bytes are combined and unpacked in words of 8, 32 and 64 bits, with all that a step
relies on: a byte or a row that is read must be there, and a number must fit its word. If not, the
step is out of range.

* `Checked.dilate`, `Checked.erode`, `Checked.filter`: the operators, a row of bytes at a time.
* `Checked.bits`, `Checked.levels`: the pixels taken out of their bytes. -/

namespace Bitplane

open Byte (stride)

namespace Region.Checked

open Morphology (RowPlace RowView)

/-! ## Passes over rows -/

/-- A row-wise pass over bytes. -/
def updateBytes (s : Strategy) (f : Nat → List UInt8 → Except Halt (List UInt8)) (r : Raster) :
    Except Halt Raster :=
  match h : Rows.tryUpdate s (stride r.width) f r.bytes with
  | .error e => .error e
  | .ok bytes =>
    .ok { r with bytes, size_bytes := by rw [Rows.size_tryUpdate h]; exact r.size_bytes }

/-- A row-wise pass over labels. -/
def updateLabels (s : Strategy) (f : Nat → List Nat → Except Halt (List Nat)) (g : LabelGrid) :
    Except Halt LabelGrid :=
  match h : Rows.tryUpdate s g.width f g.labels with
  | .error e => .error e
  | .ok labels =>
    .ok { g with labels, size_labels := by rw [Rows.size_tryUpdate h]; exact g.size_labels }

/-! ## Operators -/

/-- The row beside another, if one is wanted: then there must be one. -/
def rowBeside (r : Raster) (wanted : Bool) (y : Option Nat) : Except Halt (Option (Array UInt8)) :=
  if wanted then do
    let y ← require y
    let row ← require (r.row? y)
    return some row.toArray
  else .ok none

/-- Row `y` of a raster with the rows above and below it. -/
def view (r : Raster) (y : Nat) : Except Halt RowView := do
  let place := RowPlace.of y r.height
  let above ← rowBeside r (place ≠ .top) (Word.sub? y 1)
  let below ← rowBeside r (place ≠ .bottom) (Word.add? longLimit y 1)
  let current ← require (r.row? y)
  return { place, above, current := current.toArray, below }

/-- Byte `k` of a row that may be missing. -/
def byteAt (row : Option (Array UInt8)) (k : Nat) : Except Halt UInt8 :=
  match row with
  | none => .ok 0
  | some row => require row[k]?

/-- The last pixel of the byte to the left of byte `k`, as the first pixel of a byte. -/
def fromLeft (v : RowView) (k : Nat) : Except Halt UInt8 :=
  if k = 0 then .ok 0
  else do
    let b ← require v.current[k - 1]?
    return (b &&& 0x01) <<< 7

/-- A row with its last byte masked. -/
def maskLast (m : UInt8) (n : Nat) (row : List UInt8) : Except Halt (List UInt8) := do
  let k ← require (Word.sub? n 1)
  let b ← require row[k]?
  return row.set k (b &&& m)

/-- What an operator does to the row `dst`, if no step is out of range. -/
abbrev Kernel := RowView → List UInt8 → Except Halt (List UInt8)

/-- Byte `k` of a dilated row. -/
def dilateByte (v : RowView) (k : Nat) : Except Halt UInt8 := do
  let b ← require v.current[k]?
  let up ← byteAt v.above k
  let down ← byteAt v.below k
  let left ← fromLeft v k
  return Morphology.grow.entry b ||| up ||| down ||| v.fromRight k ||| left

/-- The dilated row. -/
def dilateRow : Kernel := fun v dst => (List.range dst.length).mapM (dilateByte v)

/-- Byte `k` of an eroded row whose last byte is `last`, `up` above and `down` below. -/
def erodeByte (v : RowView) (up down : Array UInt8) (last k : Nat) : Except Halt UInt8 := do
  let b ← require v.current[k]?
  let u ← require up[k]?
  let d ← require down[k]?
  let left ← fromLeft v k
  let b := Morphology.shrink.entry b &&& u &&& d
  let b := if left = 0 then b &&& 0x7f else b
  return if k = last ∨ v.fromRight k = 0 then b &&& 0xfe else b

/-- The eroded row; the first and last row keep nothing. -/
def erodeRow : Kernel := fun v dst =>
  match v.place, v.above, v.below with
  | .interior, some up, some down => do
    let last ← require (Word.sub? dst.length 1)
    (List.range dst.length).mapM (erodeByte v up down last)
  | _, _, _ => .ok dst

/-- Byte `k` of a row without isolated pixels. -/
def filterByte (v : RowView) (k : Nat) : Except Halt UInt8 := do
  let b ← require v.current[k]?
  let left ← fromLeft v k
  let up ← byteAt v.above k
  let down ← byteAt v.below k
  return b &&& ((b <<< 1) ||| (b >>> 1) ||| v.fromRight k ||| left ||| up ||| down)

/-- The row without isolated pixels. -/
def filterRow : Kernel := fun v dst => (List.range dst.length).mapM (filterByte v)

/-- **A kernel applied to every row** of a raster that is large enough, the padding of the result
cleared. -/
def sweep (kernel : Kernel) (s : Strategy) (r : Raster) : Except Halt Raster := do
  (checkSides r.width r.height).mapError fun e => .refused (.morphology (.raster e))
  let f := fun y dst => do
    let v ← view r y
    let row ← kernel v dst
    maskLast r.paddingMask (stride r.width) row
  updateBytes s f r.template

/-- **Dilation by the cross.** -/
def dilate : Strategy → Raster → Except Halt Raster := sweep dilateRow

/-- **Erosion by the cross.** -/
def erode : Strategy → Raster → Except Halt Raster := sweep erodeRow

/-- **The pixels that have a set neighbour.** -/
def filter : Strategy → Raster → Except Halt Raster := sweep filterRow

/-! ## Unpacking -/

/-- What is read of the pixels of a row, each in its byte, written over the entries of `row`. -/
def unpackRow {α : Type} (read : UInt8 → Nat → α) (src : Array UInt8) (row : List α) :
    Except Halt (List α) :=
  (List.range row.length).mapM fun x => do
    let b ← require src[x / 8]?
    return read b (x % 8)

/-- **All pixels of the picture**, row by row. -/
def bits (r : Raster) : Except Halt (Array Bool) := do
  let size ← require (Word.mul? longLimit r.width r.height)
  let f := fun y row => do
    let src ← require (r.row? y)
    unpackRow Byte.pixel src.toArray row
  Rows.tryUpdate .standard r.width f (Array.replicate size false)

/-- A grid of the raster's size that is all background. -/
def background (r : Raster) : LabelGrid where
  width := r.width
  height := r.height
  labels := Array.replicate (r.width * r.height) 0
  width_pos := r.width_pos
  height_pos := r.height_pos
  size_labels := Array.size_replicate

/-- **All pixels of the picture as labels.** -/
def levels (r : Raster) : Except Halt LabelGrid := do
  let _ ← require (Word.mul? longLimit r.width r.height)
  let f := fun y row => do
    let src ← require (r.row? y)
    unpackRow Byte.level src.toArray row
  updateLabels .standard f (background r)

end Region.Checked

end Bitplane
