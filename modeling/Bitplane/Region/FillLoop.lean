import Bitplane.Region.Fill
import Bitplane.Region.LabelingLoops

/-! # Flood fill in words

The fill with all that a step relies on: coordinates and places are words of 64 bits with a sign,
the number of components is a word of 32 bits, and a place that is read or written must be in the
list of labels. If not, the step is out of range. That the queue runs empty is not said.

* `lookInWords`: a neighbour of a point of the queue looked at.
* `spreadInWords`: the loop over the queue.
* `fillFromInWords`, `fillInWords`: the loop over the pixels. -/

namespace Bitplane

namespace Region

/-- A number that fits a word of 64 bits with a sign. -/
def Word.signed? (z : Int) : Option Int :=
  if -0x8000000000000000 ≤ z ∧ z < 0x8000000000000000 then some z else none

end Region

open Region Region.Loop

namespace Raster

/-- The point a step away from `p` looked at: labelled `n` and put last in the queue, if it lies in
the picture, is set and has no label. -/
def lookInWords (r : Raster) (n : Nat) (p : Point) (acc : Array Nat × List Point) (d : Int × Int) :
    Except Halt (Array Nat × List Point) := do
  let x ← require (Word.signed? (p.x + d.1))
  let y ← require (Word.signed? (p.y + d.2))
  if x < 0 ∨ y < 0 ∨ r.width ≤ x ∨ r.height ≤ y then return acc
  else do
    let row ← require (Word.signed? (y * r.width))
    let i ← require (Word.signed? (row + x))
    let label ← require acc.1[i.toNat]?
    if label = 0 ∧ r.isSet x.toNat y.toNat = true then
      return (acc.1.setIfInBounds i.toNat n, acc.2 ++ [⟨x.toNat, y.toNat⟩])
    else return acc

/-- **The label `n` written on every point that can be reached** from those in the queue. -/
def spreadInWords (r : Raster) (c : Connectivity) (n : Nat) (labels : Array Nat)
    (queue : List Point) :
    Loop (Array Nat) :=
  match queue with
  | [] => return labels
  | p :: queue => do
    let (labels, queue) ← once (c.steps.foldlM (r.lookInWords n p) (labels, queue))
    r |>.spreadInWords c n labels queue
partial_fixpoint

/-- The pixel at place `i` looked at, and filled from if it is set and has no label. -/
def fillFromInWords (r : Raster) (c : Connectivity) (acc : Array Nat × Nat) (i : Nat) :
    Loop (Array Nat × Nat) := do
  let label ← need acc.1[i]?
  let p := r.pointAt i
  if label = 0 ∧ r.isSet p.x p.y = true then do
    let n ← need (Word.add? wordLimit acc.2 1)
    let labels ← r.spreadInWords c n (acc.1.setIfInBounds i n) [p]
    return (labels, n)
  else return acc

/-- **The components of a picture by flood fill, in words.** -/
def fillInWords (r : Raster) (c : Connectivity) : Loop (Array Nat × Nat) := do
  let size ← need (Word.signed? (r.width * r.height))
  (List.range size.toNat).foldlM (r.fillFromInWords c) (Array.replicate size.toNat 0, 0)

end Raster

end Bitplane
