import Bitplane.Connectivity

/-! # Components: points joined by paths of set pixels

Two points are *adjacent* if a step leads from one to the other, and *joined* in a picture if a path
of set pixels does, each adjacent to the one before. A component is a class of joined points.

* `adjacent_four_iff`, `adjacent_eight_iff`: adjacency by coordinates.
* `mem_neighbours_iff`: the neighbours of a point are the adjacent points of the picture.
* `Joined.symm`, `Joined.trans`: being joined is an equivalence on the set pixels. -/

namespace Bitplane

variable {c : Connectivity} {p q s : Point}

namespace Point

/-- **A step leads from the first point to the second.** -/
def Adjacent (c : Connectivity) (p q : Point) : Prop :=
  ((q.x : Int) - p.x, (q.y : Int) - p.y) ∈ c.steps

instance (c : Connectivity) (p q : Point) : Decidable (Adjacent c p q) :=
  inferInstanceAs (Decidable (_ ∈ c.steps))

theorem adjacent_four_iff : Adjacent .four p q ↔
    p.y = q.y ∧ (p.x + 1 = q.x ∨ q.x + 1 = p.x) ∨
      p.x = q.x ∧ (p.y + 1 = q.y ∨ q.y + 1 = p.y) := by
  simp only [Adjacent, Connectivity.steps, cross, List.mem_cons, List.not_mem_nil, or_false,
    Prod.mk.injEq]
  omega

theorem adjacent_eight_iff : Adjacent .eight p q ↔
    (p.x ≠ q.x ∨ p.y ≠ q.y) ∧ p.x ≤ q.x + 1 ∧ q.x ≤ p.x + 1 ∧ p.y ≤ q.y + 1 ∧ q.y ≤ p.y + 1 := by
  simp only [Adjacent, Connectivity.steps, ring, List.mem_cons, List.not_mem_nil, or_false,
    Prod.mk.injEq]
  omega

theorem Adjacent.symm (h : Adjacent c p q) : Adjacent c q p := by
  cases c with
  | four => rw [adjacent_four_iff] at h ⊢; omega
  | eight => rw [adjacent_eight_iff] at h ⊢; omega

theorem Adjacent.ne (h : Adjacent c p q) : p ≠ q := by
  rintro rfl
  cases c with
  | four => rw [adjacent_four_iff] at h; omega
  | eight => rw [adjacent_eight_iff] at h; omega

theorem Adjacent.eight_of_four (h : Adjacent .four p q) : Adjacent .eight p q := by
  rw [adjacent_four_iff] at h
  rw [adjacent_eight_iff]
  omega

theorem adjacent_right (c : Connectivity) (x y : Nat) : Adjacent c ⟨x, y⟩ ⟨x + 1, y⟩ := by
  cases c with
  | four => simp [adjacent_four_iff]
  | eight =>
    simp only [adjacent_eight_iff]
    omega

theorem adjacent_left (c : Connectivity) (h0 : p.x ≠ 0) : Adjacent c p ⟨p.x - 1, p.y⟩ := by
  have h := adjacent_right c (p.x - 1) p.y
  rw [Nat.sub_add_cancel (Nat.pos_of_ne_zero h0)] at h
  exact h.symm

theorem step?_eq_some_iff {w h : Nat} {d : Int × Int} : p.step? w h d = some q ↔
    ((q.x : Int) - p.x, (q.y : Int) - p.y) = d ∧ q.x < w ∧ q.y < h := by
  obtain ⟨dx, dy⟩ := d
  obtain ⟨qx, qy⟩ := q
  unfold step?
  simp only [Prod.mk.injEq]
  split
  · simp only [Option.some.injEq, Point.mk.injEq]
    omega
  · simp only [reduceCtorEq, false_iff]
    omega

/-- **The neighbours of a point are the adjacent points of the picture.** -/
theorem mem_neighbours_iff {w h : Nat} :
    q ∈ p.neighbours c w h ↔ Adjacent c p q ∧ q.x < w ∧ q.y < h := by
  unfold neighbours Adjacent
  rw [List.mem_filterMap]
  constructor
  · rintro ⟨d, hd, hq⟩
    obtain ⟨rfl, hin⟩ := step?_eq_some_iff.mp hq
    exact ⟨hd, hin⟩
  · rintro ⟨hd, hin⟩
    exact ⟨_, hd, step?_eq_some_iff.mpr ⟨rfl, hin⟩⟩

end Point

namespace Raster

open Point (Adjacent)

variable {r : Raster}

/-- **A path of set pixels leads from the first point to the second.** -/
inductive Joined (r : Raster) (c : Connectivity) : Point → Point → Prop
  /-- A set pixel is joined to itself. -/
  | here {p : Point} (h : r.isSet p.x p.y = true) : Joined r c p p
  /-- A path goes on to an adjacent set pixel. -/
  | step {p q s : Point} (hpq : Joined r c p q) (hqs : Adjacent c q s)
      (hs : r.isSet s.x s.y = true) : Joined r c p s

namespace Joined

theorem isSet_right (h : r.Joined c p q) : r.isSet q.x q.y = true := by
  cases h with
  | here h => exact h
  | step _ _ h => exact h

theorem isSet_left (h : r.Joined c p q) : r.isSet p.x p.y = true := by
  induction h with
  | here h => exact h
  | step _ _ _ ih => exact ih

theorem trans (hpq : r.Joined c p q) (hqs : r.Joined c q s) : r.Joined c p s := by
  induction hqs with
  | here _ => exact hpq
  | step _ ha hs ih => exact ih.step ha hs

theorem symm (h : r.Joined c p q) : r.Joined c q p := by
  induction h with
  | here h => exact .here h
  | step h ha hs ih => exact ((here hs).step ha.symm h.isSet_right).trans ih

theorem eight_of_four (h : r.Joined .four p q) : r.Joined .eight p q := by
  induction h with
  | here h => exact .here h
  | step _ ha hs ih => exact ih.step ha.eight_of_four hs

end Joined

end Raster

end Bitplane
