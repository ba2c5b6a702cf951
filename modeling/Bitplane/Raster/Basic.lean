import Bitplane.Byte.Basic
import Bitplane.Held
import Bitplane.Rows.Basic
import Bitplane.Raster.Error

/-! # Rasters: binary pictures packed eight pixels to a byte

A raster holds `stride width` bytes a row, `height` rows, nothing between them. Pixel `(x, y)` is
pixel `x % 8` of byte `stride · y + x / 8`. A last byte may have room beyond the width; those
pixels are the *padding*, and `PaddingClear` says that none of them is set.

* `blank?`, `ofBytes?`: makers, which leave the padding clear.
* `get?`, `isSet`: the pixels of the picture; `stored?` reads any pixel of the buffer.
* `set?`, `put?`, `writeBytes?`, `writeRow?`: writers; all but the first may set padding. `write` is
  the first on a raster that is held.
* `update`: a row-wise pass. -/

namespace Bitplane

open Byte (stride)

/-- **A binary picture**, packed eight pixels to a byte. -/
structure Raster where
  width : Nat
  height : Nat
  bytes : Array UInt8
  width_pos : 0 < width
  height_pos : 0 < height
  size_bytes : bytes.size = stride width * height
  deriving DecidableEq

/-- The least width and height that the operators take. -/
def leastSide : Nat := 2

/-- Both sides are at least `leastSide`. -/
def checkSides (width height : Nat) : Except Raster.Error Unit :=
  if width < leastSide ∨ height < leastSide then .error (.tooSmall width height leastSide)
  else .ok ()

namespace Raster

/-! ## Makers -/

/-- A raster without a set pixel. -/
def blank (width height : Nat) (hw : 0 < width) (hh : 0 < height) : Raster where
  width := width
  height := height
  bytes := Array.replicate (stride width * height) 0
  width_pos := hw
  height_pos := hh
  size_bytes := Array.size_replicate

/-- A raster without a set pixel, refused for a side of zero. -/
def blank? (width height : Nat) : Except Error Raster :=
  if h : 0 < width ∧ 0 < height then .ok (blank width height h.1 h.2)
  else .error (.invalidDimension width height)

/-- A row-wise pass over the bytes. -/
def update (s : Strategy) (f : Nat → List UInt8 → List UInt8) (r : Raster) : Raster :=
  { r with
    bytes := Rows.update s (stride r.width) f r.bytes
    size_bytes := by rw [Rows.size_update]; exact r.size_bytes }

/-- The pixels of a row's last byte that belong to the picture. -/
def paddingMask (r : Raster) : UInt8 := Byte.lastMask r.width

/-- The raster with every padding pixel clear. -/
def clearPadding (r : Raster) : Raster :=
  r.update .serial fun _ row => Byte.maskLast r.paddingMask row

/-- The raster with the given bytes, its padding cleared. -/
def ofBytes? (width height : Nat) (bytes : Array UInt8) : Except Error Raster :=
  if h : 0 < width ∧ 0 < height then
    if hb : bytes.size = stride width * height then
      .ok (clearPadding ⟨width, height, bytes, h.1, h.2, hb⟩)
    else .error (.bufferSize (stride width * height) bytes.size)
  else .error (.invalidDimension width height)

/-- The blank raster of the same size. -/
def template (r : Raster) : Raster := blank r.width r.height r.width_pos r.height_pos

/-! ## Rows -/

/-- The bytes of row `y`. -/
def row (r : Raster) (y : Nat) : List UInt8 := Rows.rowOf (stride r.width) r.bytes y

/-- The bytes of row `y`, if there is one. -/
def row? (r : Raster) (y : Nat) : Option (List UInt8) :=
  if y < r.height then some (r.row y) else none

/-- All rows from the top. -/
def rows (r : Raster) : List (List UInt8) := (List.range r.height).map r.row

/-! ## Pixels -/

/-- The place of the byte that holds pixel `(x, y)`. -/
def place (r : Raster) (x y : Nat) : Nat := stride r.width * y + x / 8

/-- The point lies in the picture. -/
def Inside (r : Raster) (x y : Nat) : Prop := x < r.width ∧ y < r.height

instance (r : Raster) (x y : Nat) : Decidable (r.Inside x y) :=
  inferInstanceAs (Decidable (_ ∧ _))

/-- **Any pixel of the buffer**, at the place that `(x, y)` computes to; none beyond its end. -/
def stored? (r : Raster) (x y : Nat) : Option Bool :=
  (r.bytes[r.place x y]?).map fun b => Byte.pixel b (x % 8)

/-- **The pixel at `(x, y)`**, none outside the picture. -/
def get? (r : Raster) (x y : Nat) : Option Bool :=
  if r.Inside x y then r.stored? x y else none

/-- The pixel at `(x, y)` is set; outside the picture none is. -/
def isSet (r : Raster) (x y : Nat) : Bool := (r.get? x y).getD false

/-- No padding pixel is set. -/
def PaddingClear (r : Raster) : Prop :=
  ∀ y < r.height, ∀ x, r.width ≤ x → x < 8 * stride r.width → r.stored? x y = some false

instance (r : Raster) : Decidable r.PaddingClear :=
  decidable_of_iff (∀ y < r.height, ∀ x < 8 * stride r.width,
      r.width ≤ x → r.stored? x y = some false)
    ⟨fun h y hy x hw hx => h y hy x hx hw, fun h y hy x hx hw => h y hy x hw hx⟩

/-- The buffer with one pixel written; unchanged if the place is beyond its end. -/
def put (r : Raster) (x y : Nat) (v : Bool) : Raster :=
  { r with
    bytes := r.bytes.modify (r.place x y) fun b => Byte.put b (x % 8) v
    size_bytes := by rw [Array.size_modify]; exact r.size_bytes }

/-- Any pixel of the buffer written; none if its place is beyond the end. -/
def put? (r : Raster) (x y : Nat) (v : Bool) : Option Raster :=
  if r.place x y < r.bytes.size then some (r.put x y v) else none

/-- A pixel of the picture written, on a raster that is held. The column is checked before
the row. -/
def write (x y : Nat) (v : Bool) : Held Error Raster Unit := do
  let r ← get
  if r.width ≤ x then throw (.indexOutOfBounds x r.width)
  else if r.height ≤ y then throw (.indexOutOfBounds y r.height)
  else set (r.put x y v)

/-- The raster with a pixel of the picture written. -/
def set? (r : Raster) (x y : Nat) (v : Bool) : Except Error Raster := (write x y v).left r

/-- Bytes written from place `i` on, padding included; none if the place of one is beyond the end,
so that no bytes can be written anywhere. -/
def writeBytes? (r : Raster) (i : Nat) (bs : List UInt8) : Option Raster :=
  if bs = [] ∨ i + bs.length ≤ r.bytes.size then
    some { r with
      bytes := Rows.overlay r.bytes i bs
      size_bytes := by rw [Rows.size_overlay]; exact r.size_bytes }
  else none

/-- Bytes written over the start of row `y`; what does not fit is dropped. -/
def writeRow? (r : Raster) (y : Nat) (bs : List UInt8) : Option Raster :=
  if y < r.height then
    r.writeBytes? (stride r.width * y) (bs.take (stride r.width))
  else none

/-! ## Sizes and counts -/

/-- Width and height. -/
def size (r : Raster) : Nat × Nat := (r.width, r.height)

/-- The two rasters have one size. -/
def sameSize (a b : Raster) : Bool := a.size == b.size

/-- The second raster has the size of the first. -/
def checkSameSize (a b : Raster) : Except Error Unit :=
  if a.sameSize b then .ok () else .error (.dimensionMismatch a.size b.size)

/-- The number of set pixels of the buffer. -/
def count (r : Raster) : Nat := r.bytes.foldl (fun n b => n + Byte.count b) 0

/-- No pixel of the buffer is set. -/
def isEmpty (r : Raster) : Bool := r.bytes.all (· == 0)

end Raster

end Bitplane
