import Bitplane.Raster.Basic

/-! # Combining rasters byte by byte

Two rasters of one size are combined pixel by pixel, a byte at a time; the complement keeps the
padding clear. -/

namespace Bitplane

/-- A way to combine two pixels. -/
inductive Combination
  /-- Both are set. -/
  | and
  /-- One or both are set. -/
  | or
  /-- One of them is set and the other is not. -/
  | xor
  /-- The first is set and the second is not. -/
  | subtract
  deriving DecidableEq

namespace Combination

/-- Two pixels combined. -/
def onPixels : Combination → Bool → Bool → Bool
  | and, a, b => a && b
  | or, a, b => a || b
  | xor, a, b => a ^^ b
  | subtract, a, b => a && !b

/-- Two bytes combined, all eight pixels at once. -/
def onBytes : Combination → UInt8 → UInt8 → UInt8
  | and, a, b => a &&& b
  | or, a, b => a ||| b
  | xor, a, b => a ^^^ b
  | subtract, a, b => a &&& ~~~ b

end Combination

namespace Raster

/-- **Two rasters combined**, refused unless they have one size. -/
def combine (op : Combination) (a b : Raster) : Except Error Raster := do
  a.checkSameSize b
  return a.template.update .standard fun y _ => List.zipWith op.onBytes (a.row y) (b.row y)

/-- The pixels that are set in both. -/
def and (a b : Raster) : Except Error Raster := combine .and a b

/-- The pixels that are set in one or both. -/
def or (a b : Raster) : Except Error Raster := combine .or a b

/-- The pixels that are set in exactly one. -/
def xor (a b : Raster) : Except Error Raster := combine .xor a b

/-- The pixels that are set in the first only. -/
def subtract (a b : Raster) : Except Error Raster := combine .subtract a b

/-- **The complement**, its padding clear. -/
def invert (r : Raster) : Raster :=
  r.template.update .standard fun y _ =>
    Byte.maskLast r.paddingMask ((r.row y).map fun b => ~~~ b)

/-- Every set pixel of the first buffer is set in the second; refused unless they have one size. -/
def isSubset (a b : Raster) : Except Error Bool := do
  a.checkSameSize b
  return (List.zipWith (fun p q => p &&& ~~~ q) a.bytes.toList b.bytes.toList).all (· == 0)

end Raster

end Bitplane
