import Bitplane.Raster.Combine
import Bitplane.Morphology.Table

/-! # Morphology with the cross of five pixels

The cross is a pixel with its four neighbours. Each operator makes a row of bytes from the row
above, the row itself and the row below: the table entry of a byte is combined with the bytes above
and below it and corrected by the adjacent pixels of the bytes beside it.

* `dilate`: a pixel is set if some pixel of its cross is.
* `erode`: a pixel stays if its whole cross is set, pixels outside the picture counting as clear, so
  that the border is always cleared.
* `filterIsolated`: a pixel stays if one of its four neighbours is set.
* `opening`, `closing`, `gradient`, `topHat`: combinations of these.

Every result has its padding clear, and every operator refuses a side below two. -/

namespace Bitplane

namespace Morphology

/-- What can go wrong in an operator. -/
inductive Error
  /-- An operand is at fault. -/
  | raster (e : Raster.Error)
  deriving DecidableEq

/-- The text of an error. -/
def Error.message : Error → String
  | raster e => s!"core error: {e.message}"

/-- Where a row lies; pictures have at least two rows, so none is first and last. -/
inductive RowPlace
  /-- The first row. -/
  | top
  /-- A row with one above and one below. -/
  | interior
  /-- The last row. -/
  | bottom
  deriving DecidableEq

/-- The place of row `y` among `height` rows. -/
def RowPlace.of (y height : Nat) : RowPlace :=
  if y = 0 then top else if y + 1 = height then bottom else interior

/-- A row of bytes with the rows above and below it, as far as the picture goes. -/
structure RowView where
  place : RowPlace
  above : Option (Array UInt8)
  current : Array UInt8
  below : Option (Array UInt8)

namespace RowView

/-- Row `y` of a raster. -/
def of (r : Raster) (y : Nat) : RowView :=
  let place := RowPlace.of y r.height
  { place
    above := match place with
      | .top => none
      | .interior | .bottom => some (r.row (y - 1)).toArray
    current := (r.row y).toArray
    below := match place with
      | .bottom => none
      | .top | .interior => some (r.row (y + 1)).toArray }

/-- Byte `k` of a row. -/
def byteAt (row : Array UInt8) (k : Nat) : UInt8 := row[k]?.getD 0

/-- Byte `k` of a row that may be missing. -/
def byteAt? (row : Option (Array UInt8)) (k : Nat) : UInt8 := (row.map (byteAt · k)).getD 0

/-- The first pixel of the byte to the right of byte `k`, as the last pixel of a byte. -/
def fromRight (v : RowView) (k : Nat) : UInt8 := byteAt v.current (k + 1) >>> 7

/-- The last pixel of the byte to the left of byte `k`, as the first pixel of a byte. -/
def fromLeft (v : RowView) (k : Nat) : UInt8 :=
  if k = 0 then 0 else (byteAt v.current (k - 1) &&& 0x01) <<< 7

end RowView

/-! ## Row kernels

A kernel turns the bytes of a blank row into those of the result. -/

/-- What an operator does to a row. -/
abbrev Kernel := RowView → List UInt8 → List UInt8

open RowView (byteAt byteAt?)

/-- Byte `k` of a dilated row. -/
def dilateByte (v : RowView) (k : Nat) : UInt8 :=
  grow.entry (byteAt v.current k) ||| byteAt? v.above k ||| byteAt? v.below k |||
    v.fromRight k ||| v.fromLeft k

/-- The dilated row. -/
def dilateRow : Kernel := fun v dst => dst.mapIdx fun k _ => dilateByte v k

/-- Byte `k` of an eroded row of `n` bytes, `up` above and `down` below. -/
def erodeByte (v : RowView) (up down : Array UInt8) (n k : Nat) : UInt8 :=
  let b := shrink.entry (byteAt v.current k) &&& byteAt up k &&& byteAt down k
  let b := if v.fromLeft k = 0 then b &&& 0x7f else b
  if k + 1 = n ∨ v.fromRight k = 0 then b &&& 0xfe else b

/-- The eroded row; the first and last row keep nothing. -/
def erodeRow : Kernel := fun v dst =>
  match v.place, v.above, v.below with
  | .interior, some up, some down => dst.mapIdx fun k _ => erodeByte v up down dst.length k
  | _, _, _ => dst

/-- Byte `k` of a row without isolated pixels. -/
def filterByte (v : RowView) (k : Nat) : UInt8 :=
  let b := byteAt v.current k
  b &&& ((b <<< 1) ||| (b >>> 1) ||| v.fromRight k ||| v.fromLeft k ||| byteAt? v.above k |||
    byteAt? v.below k)

/-- The row without isolated pixels. -/
def filterRow : Kernel := fun v dst => dst.mapIdx fun k _ => filterByte v k

/-- **A kernel applied to every row**, the padding of the result cleared. -/
def sweep (s : Strategy) (kernel : Kernel) (r : Raster) : Raster :=
  r.template.update s fun y dst => Byte.maskLast r.paddingMask (kernel (RowView.of r y) dst)

/-- A kernel applied to every row of a raster that is large enough. -/
def sweep? (s : Strategy) (kernel : Kernel) (r : Raster) : Except Error Raster := do
  (checkSides r.width r.height).mapError .raster
  return sweep s kernel r

end Morphology

namespace Raster

open Morphology

/-- Dilation by the cross, row by row as the strategy says. -/
def dilateWith (s : Strategy) (r : Raster) : Except Morphology.Error Raster := sweep? s dilateRow r

/-- Erosion by the cross, row by row as the strategy says. -/
def erodeWith (s : Strategy) (r : Raster) : Except Morphology.Error Raster := sweep? s erodeRow r

/-- Removal of isolated pixels, row by row as the strategy says. -/
def filterIsolatedWith (s : Strategy) (r : Raster) : Except Morphology.Error Raster :=
  sweep? s filterRow r

/-- **Dilation by the cross.** -/
def dilate (r : Raster) : Except Morphology.Error Raster := r.dilateWith .standard

/-- **Erosion by the cross.** -/
def erode (r : Raster) : Except Morphology.Error Raster := r.erodeWith .standard

/-- **The pixels that have a set neighbour.** -/
def filterIsolated (r : Raster) : Except Morphology.Error Raster := r.filterIsolatedWith .standard

/-- Erosion, then dilation: what is thinner than the cross goes. -/
def opening (r : Raster) : Except Morphology.Error Raster := do
  let e ← r.erode
  e.dilate

/-- Dilation, then erosion: gaps and notches of one pixel are filled. -/
def closing (r : Raster) : Except Morphology.Error Raster := do
  let d ← r.dilate
  d.erode

/-- What dilation sets and erosion does not: both sides of every edge. -/
def gradient (r : Raster) : Except Morphology.Error Raster := do
  let d ← r.dilate
  let e ← r.erode
  (d.subtract e).mapError .raster

/-- What opening removes. -/
def topHat (r : Raster) : Except Morphology.Error Raster := do
  let o ← r.opening
  (r.subtract o).mapError .raster

end Raster

end Bitplane
