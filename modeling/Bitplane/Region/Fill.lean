import Bitplane.Connectivity

/-! # Flood fill

Components numbered by filling: the pixels are taken in raster order, and one that is set and has no
label yet gets the next number, together with all that can be reached from it, breadth first.

* `enqueue` labels a point that is set and not labelled, and puts it last in the queue.
* `spread` takes the points of the queue in turn and enqueues the neighbours of each. A point enters
  the queue when it is labelled, so each turn shortens the queue but for labels written.
* `fill` numbers the components of a picture. -/

namespace Bitplane.Raster

/-- The place of a point in a row-by-row list. -/
def placeOf (r : Raster) (p : Point) : Nat := p.y * r.width + p.x

/-- The label after `n` written on a point that is set and not labelled; the point joins
the queue. -/
def enqueue (r : Raster) (n : Nat) (acc : Array Nat × List Point) (p : Point) :
    Array Nat × List Point :=
  match acc with
  | (labels, queue) =>
    if labels[r.placeOf p]? = some 0 ∧ r.isSet p.x p.y = true then
      (labels.setIfInBounds (r.placeOf p) (n + 1), queue ++ [p])
    else (labels, queue)

/-- A label written makes the queue one longer. -/
theorem count_zero_enqueue (r : Raster) (n : Nat) (acc : Array Nat × List Point) (p : Point) :
    (r.enqueue n acc p).1.count 0 + (r.enqueue n acc p).2.length =
      acc.1.count 0 + acc.2.length := by
  obtain ⟨labels, queue⟩ := acc
  unfold enqueue
  simp only
  split
  next h =>
    obtain ⟨hi, h0⟩ := Array.getElem?_eq_some_iff.mp h.1
    have hpos : 0 < labels.count 0 := Array.count_pos_iff.mpr (h0 ▸ Array.getElem_mem hi)
    rw [Array.setIfInBounds_def, dif_pos hi, Array.count_set hi, h0, if_pos (beq_self_eq_true 0),
      if_neg (by simp), List.length_append, List.length_singleton]
    omega
  next => rfl

theorem count_zero_foldl_enqueue (r : Raster) (n : Nat) (acc : Array Nat × List Point)
    (ps : List Point) : (ps.foldl (r.enqueue n) acc).1.count 0 +
      (ps.foldl (r.enqueue n) acc).2.length = acc.1.count 0 + acc.2.length := by
  induction ps generalizing acc with
  | nil => rfl
  | cons p ps ih => rw [List.foldl_cons, ih, count_zero_enqueue]

/-- **The label after `n` written on every point that can be reached** from those in the queue. -/
def spread (r : Raster) (c : Connectivity) (n : Nat) (labels : Array Nat) :
    List Point → Array Nat
  | [] => labels
  | p :: queue =>
    let next := (p.neighbours c r.width r.height).foldl (r.enqueue n) (labels, queue)
    spread r c n next.1 next.2
termination_by queue => labels.count 0 + queue.length
decreasing_by
  have := r.count_zero_foldl_enqueue n (labels, queue) (p.neighbours c r.width r.height)
  simp only [List.length_cons] at this ⊢
  omega

/-- The point at a place of a row-by-row list. -/
def pointAt (r : Raster) (i : Nat) : Point := ⟨i % r.width, i / r.width⟩

/-- The points of a picture, row by row. -/
def points (r : Raster) : List Point := (List.range (r.width * r.height)).map r.pointAt

theorem points_congr {a b : Raster} (hw : a.width = b.width) (hh : a.height = b.height) :
    a.points = b.points := by
  unfold points pointAt
  rw [hw, hh]

/-- The fill from one point, unless it is clear or has a label. -/
def fillFrom (r : Raster) (c : Connectivity) (acc : Array Nat × Nat) (p : Point) :
    Array Nat × Nat :=
  match acc with
  | (labels, n) =>
    if labels[r.placeOf p]? = some 0 ∧ r.isSet p.x p.y = true then
      (r.spread c n (labels.setIfInBounds (r.placeOf p) (n + 1)) [p], n + 1)
    else (labels, n)

/-- **The components of a picture by flood fill**: the label of every pixel, row by row, and the
number of components. -/
def fill (r : Raster) (c : Connectivity) : Array Nat × Nat :=
  r.points.foldl (r.fillFrom c) (Array.replicate (r.width * r.height) 0, 0)

end Bitplane.Raster
