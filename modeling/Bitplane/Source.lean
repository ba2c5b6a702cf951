import Bitplane.Decimal.Shortest
import Bitplane.Raster.Combine
import Bitplane.Raster.Picture

/-! # Sources: the ways to make a raster

A raster is blank, given by its bytes or pixels, drawn as a picture, or a test pattern: a
checkerboard, random pixels, or all pixels set. Which pixels are random is up to a generator. -/

namespace Bitplane

namespace Pattern

/-- What can go wrong in making a test pattern. -/
inductive Error
  /-- The cells of a checkerboard have no pixels. -/
  | noCells
  /-- A density is no probability. -/
  | density (d : Float)
  /-- Any other fault of a parameter, in words. -/
  | other (text : String)
  /-- The raster could not be made. -/
  | raster (e : Raster.Error)

/-- The text of an error. -/
def Error.message : Error → String
  | noCells => "invalid fixture parameter: cell size must be positive"
  | density d => s!"invalid fixture parameter: density {Decimal.text d} outside [0, 1]"
  | other t => s!"invalid fixture parameter: {t}"
  | raster e => s!"failed to build fixture: {e.message}"

/-- **A board of squares** with `cell` pixels to a side, the first one set. -/
def checkerboard (width height cell : Nat) : Except Error Raster := do
  if cell = 0 then .error .noCells
  let r ← (Raster.blank? width height).mapError .raster
  return r.tabulate fun x y => (x / cell + y / cell) % 2 = 0

/-- The board drawn pixel by pixel, each by the sum of its cell's numbers, a word of 32 bits. -/
def drawCheckerboard (width height cell : Nat) : Except Error (Option Raster) := do
  if cell = 0 then .error .noCells
  let r ← (Raster.blank? width height).mapError .raster
  return r.draw? fun x y =>
    let n := x / cell + y / cell
    if n < 0x100000000 then some (n % 2 = 0) else none

/-- All pixels set. -/
def full (width height : Nat) : Except Error Raster := do
  let r ← (Raster.blank? width height).mapError .raster
  return r.invert

/-- **A generator of random pixels**: what it draws for a seed and a density, pixel by pixel.
Nothing is known of it but that a seed always gives the same. -/
structure Generator where
  draw : UInt64 → Float → Nat → Bool
  deriving Inhabited

/-- Pixel `i` is set: never at density zero, always at density one, and else as it is drawn. -/
def Generator.pixel (g : Generator) (seed : UInt64) (density : Float) (i : Nat) : Bool :=
  if density ≤ 0.0 then false else if 1.0 ≤ density then true else g.draw seed density i

/-- **Random pixels**, each set with the given probability. -/
def random (width height : Nat) (density : Float) (seed : UInt64) (g : Generator) :
    Except Error Raster := do
  if !(0.0 ≤ density && density ≤ 1.0) then .error (.density density)
  let bits := Array.ofFn fun i : Fin (width * height) => g.pixel seed density i
  (Raster.ofBits? bits width height).mapError .raster

/-- **The raster of a picture written by hand**, which is refused with a text if it has a fault. -/
def drawn (picture : String) : Except String Raster :=
  (Raster.ofPicture? picture).mapError fun e => s!"bad fixture picture: {e.message}"

end Pattern

/-- **How a raster is made.** -/
inductive Source
  | blank (width height : Nat)
  | bytes (width height : Nat) (bytes : Array UInt8)
  | bits (width height : Nat) (bits : Array Bool)
  | picture (text : String)
  | checkerboard (width height cell : Nat)
  | random (width height : Nat) (density : Float) (seed : UInt64)
    (generator : Pattern.Generator := default)
  | full (width height : Nat)

namespace Source

/-- What can go wrong in making a raster. -/
inductive Error
  | raster (e : Raster.Error)
  | pattern (e : Pattern.Error)

/-- The raster of a source. -/
def build : Source → Except Error Raster
  | blank w h => (Raster.blank? w h).mapError .raster
  | bytes w h bs => (Raster.ofBytes? w h bs).mapError .raster
  | bits w h vs => (Raster.ofBits? vs w h).mapError .raster
  | picture t => (Raster.ofPicture? t).mapError .raster
  | checkerboard w h n => (Pattern.checkerboard w h n).mapError .pattern
  | random w h d s g => (Pattern.random w h d s g).mapError .pattern
  | full w h => (Pattern.full w h).mapError .pattern

end Source

end Bitplane
