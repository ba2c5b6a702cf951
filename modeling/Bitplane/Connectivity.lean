import Bitplane.Raster.Basic

/-! # Neighbours of a pixel

Under `four` connectivity the neighbours of a pixel are those beside, above and below it, under
`eight` the four diagonal ones too. `neighbours` lists those that lie in a picture. -/

namespace Bitplane

/-- Which pixels touch. -/
inductive Connectivity
  /-- Pixels that share a side. -/
  | four
  /-- Pixels that share a side or a corner. -/
  | eight
  deriving DecidableEq, Inhabited

/-- A point of a picture, column and row. -/
structure Point where
  x : Nat
  y : Nat
  deriving DecidableEq

/-- The steps to the four pixels that share a side. -/
def cross : List (Int × Int) := [(-1, 0), (1, 0), (0, -1), (0, 1)]

/-- The steps to the eight pixels around. -/
def ring : List (Int × Int) :=
  [(-1, -1), (0, -1), (1, -1), (-1, 0), (1, 0), (-1, 1), (0, 1), (1, 1)]

/-- The steps to the neighbours of a pixel. -/
def Connectivity.steps : Connectivity → List (Int × Int)
  | four => cross
  | eight => ring

namespace Point

/-- The point a step away, if it lies in a picture of the given size. -/
def step? (width height : Nat) (p : Point) (d : Int × Int) : Option Point :=
  let x := (p.x : Int) + d.1
  let y := (p.y : Int) + d.2
  if 0 ≤ x ∧ x < width ∧ 0 ≤ y ∧ y < height then some ⟨x.toNat, y.toNat⟩ else none

/-- **The neighbours of a point** in a picture of the given size. -/
def neighbours (c : Connectivity) (width height : Nat) (p : Point) : List Point :=
  c.steps.filterMap (p.step? width height)

end Point

/-- The pixel at a point of the plane; outside the picture none is set. -/
def Raster.isSetAt (r : Raster) (x y : Int) : Bool :=
  if 0 ≤ x ∧ 0 ≤ y then r.isSet x.toNat y.toNat else false

end Bitplane
