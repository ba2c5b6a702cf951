import Bitplane.Raster.Basic
import Bitplane.LabelGrid.Basic

/-! # Rasters as grids of pixels

* `ofBits?` packs a grid of pixels, given row by row; `toBits` unpacks it.
* `tabulate` packs the values of a function on the points; `draw?` writes them pixel by pixel.
* `levels` unpacks a raster to a label grid of zeros and ones. -/

namespace Bitplane.Raster

open Byte (stride)

/-- Byte `k` of a packed row: the pixels `8k`, …, `8k + 7` of the row, as far as it goes. -/
def packByte (row : Array Bool) (k : Nat) : UInt8 :=
  Byte.ofPixels (row.extract (8 * k) (8 * k + 8)).toList

/-- A row packed eight pixels to a byte. -/
def packRow (row : Array Bool) : List UInt8 := (List.range (stride row.size)).map (packByte row)

/-- **The raster of a grid of pixels**, refused for a side below two or a wrong number of them. -/
def ofBits? (bits : Array Bool) (width height : Nat) : Except Error Raster := do
  checkSides width height
  if bits.size ≠ width * height then .error (.bufferSize (width * height) bits.size)
  let r ← blank? width height
  return r.update .standard fun y _ => packRow (bits.extract (y * width) ((y + 1) * width))

/-- **The raster of `r`'s size** whose pixel `(x, y)` is `f x y`. -/
def tabulate (r : Raster) (f : Nat → Nat → Bool) : Raster :=
  r.template.update .serial fun y _ => packRow (Array.ofFn fun x : Fin r.width => f x y)

/-- A pixel written if it is to be set; none if that is not known, or its place is beyond
the end. -/
def drawPixel? (f : Nat → Nat → Option Bool) (y : Nat) (r : Raster) (x : Nat) : Option Raster := do
  let set ← f x y
  if set then r.put? x y true else return r

/-- **The raster of `r`'s size drawn pixel by pixel**, row by row from the top. -/
def draw? (r : Raster) (f : Nat → Nat → Option Bool) : Option Raster :=
  (List.range r.height).foldlM
    (fun out y => (List.range r.width).foldlM (drawPixel? f y) out) r.template

/-- **All pixels of the picture**, row by row. -/
def toBits (r : Raster) : Array Bool :=
  Rows.update .standard r.width (fun y _ => ((r.row y).flatMap Byte.pixels).take r.width)
    (Array.replicate (r.width * r.height) false)

/-- The pixels of a byte as numbers. -/
def byteLevels (b : UInt8) : List Nat := (List.range 8).map (Byte.level b)

/-- **All pixels of the picture as labels**: one where a pixel is set, zero elsewhere. -/
def levels (r : Raster) : LabelGrid where
  width := r.width
  height := r.height
  labels := Rows.update .standard r.width
    (fun y _ => ((r.row y).flatMap byteLevels).take r.width)
    (Array.replicate (r.width * r.height) 0)
  width_pos := r.width_pos
  height_pos := r.height_pos
  size_labels := by rw [Rows.size_update, Array.size_replicate]

end Bitplane.Raster
