/-! # Bytes as groups of eight pixels

A byte holds eight pixels of a row, the leftmost in its highest bit.

* `pixel b i`: pixel `i` of `b`, counted from the left; `put b i v` writes it.
* `ofPixels`: the byte whose pixels from the left are those of a list of at most eight.
* `pixels`, `count`: the eight pixels, and the number of set ones.
* `lastMask w`: the pixels of a row's last byte that lie inside a picture `w` pixels wide. -/

namespace Bitplane.Byte

/-- The byte in which pixel `i` alone is set. -/
def mask (i : Nat) : UInt8 := 0x80 >>> UInt8.ofNat i

/-- Pixel `i`, counted from the left. -/
def pixel (b : UInt8) (i : Nat) : Bool := (b &&& mask i) != 0

/-- The byte with pixel `i` written. -/
def put (b : UInt8) (i : Nat) (v : Bool) : UInt8 :=
  if v then b ||| mask i else b &&& ~~~ mask i

/-- The low bit of a byte whose pixel is `v`, moved to pixel `i`. -/
def place (v : Bool) (i : Nat) : UInt8 := v.toUInt8 <<< UInt8.ofNat (7 - i)

/-- The byte whose pixels from the left are `vs`, the missing ones clear. -/
def ofPixels (vs : List Bool) : UInt8 :=
  vs.zipIdx.foldl (fun acc vi => acc ||| place vi.1 vi.2) 0

/-- The eight pixels from the left. -/
def pixels (b : UInt8) : List Bool := (List.range 8).map (pixel b)

/-- The number of set pixels. -/
def count (b : UInt8) : Nat := (pixels b).count true

/-- Pixel `i` as a number: the byte shifted until the pixel is its low bit. -/
def level (b : UInt8) (i : Nat) : Nat := ((b >>> UInt8.ofNat (7 - i)) &&& 1).toNat

/-- **The pixels of the last byte of a row** that lie inside a picture `w` pixels wide. -/
def lastMask (w : Nat) : UInt8 :=
  if w % 8 = 0 then 0xff else ~~~ ((0xff : UInt8) >>> UInt8.ofNat (w % 8))

/-! ## Rows of bytes -/

/-- The number of bytes in a row of `w` pixels. -/
def stride (w : Nat) : Nat := (w + 7) / 8

/-- A row with its last byte masked. -/
def maskLast (m : UInt8) : List UInt8 → List UInt8
  | [] => []
  | [b] => [b &&& m]
  | b :: c :: r => b :: maskLast m (c :: r)

@[simp] theorem length_pixels (b : UInt8) : (pixels b).length = 8 := by simp [pixels]

@[simp] theorem length_maskLast (m : UInt8) : ∀ r, (maskLast m r).length = r.length
  | [] => rfl
  | [_] => rfl
  | b :: c :: r => by simpa [maskLast] using length_maskLast m (c :: r)

theorem stride_pos {w : Nat} (h : 0 < w) : 0 < stride w := by unfold stride; omega

theorem div_lt_stride {x w : Nat} (h : x < w) : x / 8 < stride w := by unfold stride; omega

end Bitplane.Byte
