import Bitplane.Proofs.Region.LabeledComponents
import Bitplane.Region.Box

/-! # The mask of a component

A box *holds a component* of a picture if it contains a point, and with every point those joined to
it and no other. Its mask is the picture seen through a window: `sourcePoint` is the point of the
picture under a pixel of the mask, `maskPoint` the way back.

* `contains_sourcePoint`: a pixel of the mask is set exactly if the box contains the point under it.
* `HoldsComponent.joined_mask`: a path between points that the box contains stays in the window.
* `HoldsComponent.runCount_mask_le`: the mask has no more runs than the picture, since its runs
  start where runs of the picture start.
* `HoldsComponent.countComponents_mask`: so the mask is labeled, and has one component. -/

namespace Bitplane.Region

open Point (Adjacent)

variable {r : Raster} {b : Box} {c : Connectivity} {p q : Point}

namespace Box

/-! ## The window -/

/-- The point of the source under a pixel of the mask. -/
def sourcePoint (b : Box) (p : Point) : Point := ⟨8 * b.xByte + p.x, b.y + p.y⟩

/-- The pixel of the mask over a point of the source. -/
def maskPoint (b : Box) (p : Point) : Point := ⟨p.x - 8 * b.xByte, p.y - b.y⟩

theorem maskPoint_sourcePoint (b : Box) (p : Point) : b.maskPoint (b.sourcePoint p) = p := by
  unfold maskPoint sourcePoint
  simp only [Nat.add_sub_cancel_left]

theorem sourcePoint_injective (b : Box) : Function.Injective b.sourcePoint :=
  Function.LeftInverse.injective b.maskPoint_sourcePoint

theorem le_of_contains (h : b.contains p.x p.y = true) : 8 * b.xByte ≤ p.x ∧ b.y ≤ p.y := by
  unfold contains at h
  split at h
  next => cases h
  next hin => omega

theorem sourcePoint_maskPoint (h : b.contains p.x p.y = true) :
    b.sourcePoint (b.maskPoint p) = p := by
  obtain ⟨hx, hy⟩ := le_of_contains h
  unfold maskPoint sourcePoint
  simp only [Nat.add_sub_cancel' hx, Nat.add_sub_cancel' hy]

theorem contains_sourcePoint (b : Box) (p : Point) :
    b.contains (b.sourcePoint p).x (b.sourcePoint p).y = b.mask.isSet p.x p.y := by
  unfold contains sourcePoint
  rw [if_neg (by simp), Nat.add_sub_cancel_left, Nat.add_sub_cancel_left]

theorem isSet_maskPoint (h : b.contains p.x p.y = true) :
    b.mask.isSet (b.maskPoint p).x (b.maskPoint p).y = true := by
  rwa [← contains_sourcePoint, sourcePoint_maskPoint h]

theorem adjacent_sourcePoint_iff :
    Adjacent c (b.sourcePoint p) (b.sourcePoint q) ↔ Adjacent c p q := by
  have hx : ((8 * b.xByte + q.x : Nat) : Int) - (8 * b.xByte + p.x : Nat) = q.x - p.x := by omega
  have hy : ((b.y + q.y : Nat) : Int) - (b.y + p.y : Nat) = q.y - p.y := by omega
  unfold Adjacent sourcePoint
  rw [hx, hy]

/-! ## Boxes that hold a component -/

/-- **The box holds a component of the picture.** -/
structure HoldsComponent (b : Box) (r : Raster) (c : Connectivity) : Prop where
  exists_contains : ∃ p : Point, b.contains p.x p.y = true
  /-- With a point the box contains those joined to it, and no other. -/
  contains_iff : ∀ p q : Point, b.contains p.x p.y = true →
    (b.contains q.x q.y = true ↔ r.Joined c p q)

namespace HoldsComponent

variable (h : b.HoldsComponent r c)
include h

/-- **A path through the picture stays in the window.** -/
theorem joined_mask (hp : b.contains p.x p.y = true) (hj : r.Joined c p q) :
    b.mask.Joined c (b.maskPoint p) (b.maskPoint q) := by
  induction hj with
  | here _ => exact .here (isSet_maskPoint hp)
  | @step q s hpq ha hset ih =>
    have hq : b.contains q.x q.y = true := (h.contains_iff p q hp).mpr hpq
    have hs : b.contains s.x s.y = true := (h.contains_iff p s hp).mpr (hpq.step ha hset)
    have hmask : Adjacent c (b.maskPoint q) (b.maskPoint s) := by
      rwa [← adjacent_sourcePoint_iff (b := b), sourcePoint_maskPoint hq, sourcePoint_maskPoint hs]
    exact ih.step hmask (isSet_maskPoint hs)

theorem joined_of_isSet_mask (hp : b.mask.isSet p.x p.y = true) (hq : b.mask.isSet q.x q.y = true) :
    b.mask.Joined c p q := by
  rw [← contains_sourcePoint] at hp hq
  have hj := h.joined_mask hp ((h.contains_iff _ _ hp).mp hq)
  rwa [maskPoint_sourcePoint, maskPoint_sourcePoint] at hj

theorem exists_isSet_mask : ∃ p : Point, b.mask.isSet p.x p.y = true := by
  obtain ⟨p, hp⟩ := h.exists_contains
  exact ⟨b.maskPoint p, isSet_maskPoint hp⟩

/-! ## Runs of the mask -/

/-- **Where a run of the mask starts, one of the picture does**: a set pixel to the left would be
joined to it, also across the left border of the mask. -/
theorem startsRun_sourcePoint (hp : b.mask.StartsRun p) : r.StartsRun (b.sourcePoint p) := by
  obtain ⟨hset, hleft⟩ := hp
  rw [← contains_sourcePoint] at hset
  have hself : r.isSet (b.sourcePoint p).x (b.sourcePoint p).y = true :=
    ((h.contains_iff _ _ hset).mp hset).isSet_left
  refine ⟨hself, ?_⟩
  by_contra hno
  obtain ⟨hx, hbefore⟩ := not_or.mp hno
  rw [Bool.not_eq_false] at hbefore
  have hcontains := (h.contains_iff _ _ hset).mpr
    ((Raster.Joined.here hself).step (Point.adjacent_left c hx) hbefore)
  have hle : 8 * b.xByte ≤ 8 * b.xByte + p.x - 1 := (le_of_contains hcontains).1
  have hmask := isSet_maskPoint hcontains
  rcases hleft with h0 | hclear
  · have hx' : 8 * b.xByte + p.x ≠ 0 := hx
    omega
  · have hpoint : b.maskPoint ⟨(b.sourcePoint p).x - 1, (b.sourcePoint p).y⟩ = ⟨p.x - 1, p.y⟩ := by
      unfold maskPoint sourcePoint
      simp only [Point.mk.injEq]
      omega
    rw [hpoint, hclear] at hmask
    cases hmask

theorem runCount_mask_le : b.mask.runCount ≤ r.runCount := by
  have hnodup : ((b.mask.points.filter fun p => b.mask.StartsRun p).map b.sourcePoint).Nodup :=
    (b.mask.nodup_points.filter _).map b.sourcePoint_injective
  have hsubset : (b.mask.points.filter fun p => b.mask.StartsRun p).map b.sourcePoint ⊆
      r.points.filter fun p => r.StartsRun p := by
    intro q hq
    obtain ⟨p, hp, rfl⟩ := List.mem_map.mp hq
    have hstart := h.startsRun_sourcePoint (of_decide_eq_true (List.mem_filter.mp hp).2)
    exact List.mem_filter.mpr ⟨Raster.mem_points_iff.mpr (Raster.inside_of_isSet hstart.1),
      decide_eq_true hstart⟩
  have hlength := (List.subperm_of_subset hnodup hsubset).length_le
  rwa [List.length_map, ← List.countP_eq_length_filter, ← List.countP_eq_length_filter] at hlength

theorem countComponents_mask (hruns : r.runCount < runLimit) (hw : 2 ≤ b.mask.width)
    (hh : 2 ≤ b.mask.height) : b.mask.countComponents c = .ok 1 := by
  obtain ⟨l, hl⟩ := Raster.exists_label (o := .of c) hw hh (h.runCount_mask_le.trans_lt hruns) rfl
  obtain ⟨-, -, hnumbers⟩ := Raster.numbersComponents_of_label rfl hl
  obtain ⟨p, hp⟩ := h.exists_isSet_mask
  have hone : l.count = 1 := hnumbers.count_eq_one hp fun _ _ hq hs => h.joined_of_isSet_mask hq hs
  unfold Raster.countComponents
  rw [hl]
  exact congrArg Except.ok hone

end HoldsComponent

end Box

end Bitplane.Region
