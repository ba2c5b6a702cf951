import Bitplane.Proofs.Morphology.Dilation
import Bitplane.Proofs.Raster.CleanResults

/-! # Dilation and erosion by crosses

The cross around a point is the point with its four neighbours in the plane. Dilation sets the
pixels whose cross meets the picture; erosion keeps the pixels off the border whose cross lies in
it. The two are adjoint up to the border, and the laws of their compositions follow from that.

* `isSet_dilatePixelwise_iff`, `isSet_erodePixelwise_iff`: both by crosses.
* `within_erodePixelwise_iff`: a picture lies in the erosion of another exactly if its border is
  clear and its dilation lies in the other.
* `dilate_erode_within`: so the dilation of an erosion lies in the picture, and
  `erode_dilate_erode`: an erosion that is dilated and eroded again is what it was.
* `dilateWith_eq`, `erodeWith_eq`: the operators on bytes answer the pictures dilated and eroded by
  crosses. -/

namespace Bitplane

namespace Point

variable {p q : Point}

/-- **The second point lies in the cross around the first.** -/
def InCross (p q : Point) : Prop := q = p ∨ Adjacent .four p q

theorem inCross_self (p : Point) : p.InCross p := .inl rfl

theorem InCross.symm (h : p.InCross q) : q.InCross p := by
  rcases h with rfl | h
  · exact inCross_self q
  · exact .inr h.symm

theorem inCross_iff : p.InCross q ↔ p.y = q.y ∧ p.x ≤ q.x + 1 ∧ q.x ≤ p.x + 1 ∨
    p.x = q.x ∧ p.y ≤ q.y + 1 ∧ q.y ≤ p.y + 1 := by
  obtain ⟨px, py⟩ := p
  obtain ⟨qx, qy⟩ := q
  unfold InCross
  rw [adjacent_four_iff, Point.mk.injEq]
  simp only
  omega

end Point

namespace Raster

open Point (InCross inCross_self inCross_iff)

variable {a b r : Raster} {p q : Point}

/-! ## Border and crosses -/

/-- **The point lies off the border**: not in the first or last row or column, nor outside. -/
def Interior (r : Raster) (p : Point) : Prop :=
  0 < p.x ∧ p.x + 1 < r.width ∧ 0 < p.y ∧ p.y + 1 < r.height

instance (r : Raster) (p : Point) : Decidable (r.Interior p) := inferInstanceAs (Decidable (_ ∧ _))

/-- No pixel of the border is set. -/
def BorderClear (r : Raster) : Prop := ∀ p : Point, r.isSet p.x p.y = true → r.Interior p

/-- **The cross around the point is set**, all of it in the picture. -/
def HoldsCross (r : Raster) (p : Point) : Prop :=
  r.Interior p ∧ ∀ q : Point, p.InCross q → r.isSet q.x q.y = true

theorem interior_congr (hs : a.size = b.size) : a.Interior p ↔ b.Interior p := by
  obtain ⟨hw, hh⟩ := Prod.mk.inj hs
  unfold Interior
  rw [hw, hh]

theorem Interior.inside (h : r.Interior p) (hq : p.InCross q) : r.Inside q.x q.y := by
  rw [inCross_iff] at hq
  unfold Interior at h
  unfold Inside
  omega

theorem HoldsCross.isSet (h : r.HoldsCross p) : r.isSet p.x p.y = true := h.2 p (inCross_self p)

theorem HoldsCross.mono (h : a.HoldsCross p) (hab : a.Within b) (hs : a.size = b.size) :
    b.HoldsCross p :=
  ⟨(interior_congr hs).mp h.1, fun q hq => hab q (h.2 q hq)⟩

/-! ## The operators by crosses -/

/-- **Dilation sets the pixels whose cross meets the picture.** -/
theorem isSet_dilatePixelwise_iff : r.dilatePixelwise.isSet p.x p.y = true ↔
    r.Inside p.x p.y ∧ ∃ q : Point, p.InCross q ∧ r.isSet q.x q.y = true := by
  unfold dilatePixelwise
  rw [isSet_tabulate, Bool.and_eq_true, decide_eq_true_iff, Bool.or_eq_true, any_besides_iff]
  refine and_congr_right fun _ => ⟨?_, ?_⟩
  · rintro (h | ⟨q, hq, h⟩)
    · exact ⟨p, inCross_self p, h⟩
    · exact ⟨q, .inr (Point.mem_neighbours_iff.mp hq).1, h⟩
  · rintro ⟨q, rfl | hq, h⟩
    · exact .inl h
    · exact .inr ⟨q, Point.mem_neighbours_iff.mpr ⟨hq, inside_of_isSet h⟩, h⟩

/-- **Erosion keeps the pixels around which the picture holds a cross.** -/
theorem isSet_erodePixelwise_iff : r.erodePixelwise.isSet p.x p.y = true ↔ r.HoldsCross p := by
  unfold erodePixelwise
  rw [isSet_tabulate, Bool.and_eq_true, decide_eq_true_iff, Bool.and_eq_true, all_besides_iff]
  constructor
  · rintro ⟨-, hset, hint, h⟩
    refine ⟨hint, ?_⟩
    rintro q (rfl | hq)
    · exact hset
    · exact h q hq
  · intro h
    exact ⟨inside_of_isSet h.isSet, h.isSet, h.1, fun q hq => h.2 q (.inr hq)⟩

theorem cleanAs_dilatePixelwise (r : Raster) : r.dilatePixelwise.CleanAs r := r.cleanAs_tabulate _

theorem cleanAs_erodePixelwise (r : Raster) : r.erodePixelwise.CleanAs r := r.cleanAs_tabulate _

theorem Within.erodePixelwise (hab : a.Within b) (hs : a.size = b.size) :
    a.erodePixelwise.Within b.erodePixelwise := fun _ hp =>
  isSet_erodePixelwise_iff.mpr ((isSet_erodePixelwise_iff.mp hp).mono hab hs)

/-! ## Adjunction -/

/-- **Dilation and erosion are adjoint up to the border.** -/
theorem within_erodePixelwise_iff (hs : a.size = b.size) :
    a.Within b.erodePixelwise ↔ a.BorderClear ∧ a.dilatePixelwise.Within b := by
  constructor
  · intro h
    refine ⟨fun p hp => ?_, fun p hp => ?_⟩
    · exact (interior_congr hs).mpr (isSet_erodePixelwise_iff.mp (h p hp)).1
    · obtain ⟨-, q, hpq, hq⟩ := isSet_dilatePixelwise_iff.mp hp
      exact (isSet_erodePixelwise_iff.mp (h q hq)).2 p hpq.symm
  · rintro ⟨hborder, h⟩ p hp
    have hint := hborder p hp
    refine isSet_erodePixelwise_iff.mpr ⟨(interior_congr hs).mp hint, fun q hpq => h q ?_⟩
    exact isSet_dilatePixelwise_iff.mpr ⟨hint.inside hpq, p, hpq.symm, hp⟩

theorem borderClear_erodePixelwise (r : Raster) : r.erodePixelwise.BorderClear :=
  ((within_erodePixelwise_iff (cleanAs_erodePixelwise r).size_eq).mp (Within.refl _)).1

theorem dilate_erode_within (r : Raster) : r.erodePixelwise.dilatePixelwise.Within r :=
  ((within_erodePixelwise_iff (cleanAs_erodePixelwise r).size_eq).mp (Within.refl _)).2

theorem BorderClear.within_erode_dilate (h : r.BorderClear) :
    r.Within r.dilatePixelwise.erodePixelwise :=
  (within_erodePixelwise_iff (cleanAs_dilatePixelwise r).size_eq.symm).mpr ⟨h, Within.refl _⟩

theorem erode_dilate_erode (r : Raster) :
    r.erodePixelwise.dilatePixelwise.erodePixelwise = r.erodePixelwise := by
  have hopened : r.erodePixelwise.dilatePixelwise.CleanAs r :=
    (cleanAs_dilatePixelwise _).trans (cleanAs_erodePixelwise r)
  have hagain := (cleanAs_erodePixelwise r.erodePixelwise.dilatePixelwise).trans hopened
  have hclean := cleanAs_erodePixelwise r
  have hle := (dilate_erode_within r).erodePixelwise hopened.size_eq
  have hge := (borderClear_erodePixelwise r).within_erode_dilate
  exact hle.antisymm hge hagain.paddingClear hclean.paddingClear
    (hagain.size_eq.trans hclean.size_eq.symm)

/-! ## The operators on bytes -/

theorem dilateWith_eq (s : Strategy) (hp : r.PaddingClear) (hw : 2 ≤ r.width) (hh : 2 ≤ r.height) :
    r.dilateWith s = .ok r.dilatePixelwise := by
  unfold dilateWith
  rw [Morphology.sweep?_ok _ _ hw hh, Morphology.sweep_dilate _ hp]

theorem erodeWith_eq (s : Strategy) (hp : r.PaddingClear) (hw : 2 ≤ r.width) (hh : 2 ≤ r.height) :
    r.erodeWith s = .ok r.erodePixelwise := by
  unfold erodeWith
  rw [Morphology.sweep?_ok _ _ hw hh, Morphology.sweep_erode _ hp]

end Raster

end Bitplane
