import Bitplane.Proofs.Morphology.CrossRules
import Bitplane.Proofs.Morphology.Crosses

/-! # Dilation and erosion as adjoints and as duals

Dilation and erosion determine each other in two ways, and in both the border is the exception,
since erosion counts the pixels beyond it as clear. A picture lies in the erosion of another exactly
if its dilation lies in the other and its border is clear; and off the border the erosion of the
complement is the complement of the dilation.

* `dilation_adjoint_to_erosion`: the first law, as the comparison of bytes decides it.
* `crossAt_invert`: off the border the complement flips the crosses, so that one rule becomes the
  other.
* `isSet_erode_invert_iff`: so the erosion of the complement keeps what the dilation leaves clear.
* `interior`: the picture of all pixels off the border.
* `erosion_dual_to_dilation`: the second law, whatever the padding. -/

namespace Bitplane.Raster

variable {a b r : Raster} {p : Point} {x y : Nat}

/-! ## Adjoints -/

/-- **Dilation and erosion are adjoint up to the border**: with clear padding both operators and
both comparisons succeed, and the first picture lies in the erosion of the second exactly if no
pixel of its border is set and its dilation lies in the second. -/
theorem dilation_adjoint_to_erosion (s s' : Strategy) (ha : a.PaddingClear) (hb : b.PaddingClear)
    (hs : a.size = b.size) (hw : 2 ≤ a.width) (hh : 2 ≤ a.height) :
    ∃ d e v v', a.dilateWith s = .ok d ∧ b.erodeWith s' = .ok e ∧ a.isSubset e = .ok v ∧
      d.isSubset b = .ok v' ∧ (v = true ↔ a.BorderClear ∧ v' = true) := by
  obtain ⟨hwidth, hheight⟩ := Prod.mk.inj hs
  have hd := cleanAs_dilatePixelwise a
  have he := cleanAs_erodePixelwise b
  obtain ⟨v, hv, hwithin⟩ := exists_isSubset ha he.paddingClear (hs.trans he.size_eq.symm)
  obtain ⟨v', hv', hwithin'⟩ := exists_isSubset hd.paddingClear hb (hd.size_eq.trans hs)
  refine ⟨_, _, v, v', dilateWith_eq s ha hw hh, erodeWith_eq s' hb (hwidth ▸ hw) (hheight ▸ hh),
    hv, hv', ?_⟩
  rw [hwithin, hwithin']
  exact within_erodePixelwise_iff hs

/-- A pixel at the end of a byte, and a larger picture that holds its cross but not one more. -/
theorem dilation_adjoint_to_erosion_across_bytes :
    let a : Raster := ⟨10, 3, #[0x00, 0x00, 0x01, 0x00, 0x00, 0x00], by decide, by decide, by decide⟩
    let b : Raster := ⟨10, 3, #[0x01, 0x40, 0x03, 0xc0, 0x01, 0x00], by decide, by decide, by decide⟩
    a.PaddingClear ∧ b.PaddingClear ∧ a.size = b.size ∧ 2 ≤ a.width ∧ 2 ≤ a.height ∧
      ∃ d e v v', a.dilateWith .serial = .ok d ∧ b.erodeWith (.parallel ⟨[2, 0]⟩) = .ok e ∧
        a.isSubset e = .ok v ∧ d.isSubset b = .ok v' ∧ (v = true ↔ a.BorderClear ∧ v' = true) := by
  intro a b
  have ha : a.PaddingClear := by decide
  have hb : b.PaddingClear := by decide
  exact ⟨ha, hb, rfl, by decide, by decide,
    dilation_adjoint_to_erosion .serial (.parallel ⟨[2, 0]⟩) ha hb rfl (by decide) (by decide)⟩

/-! ## Duals -/

/-- The picture of all pixels off the border. -/
def interior (r : Raster) : Raster := r.tabulate fun x y => decide (r.Interior ⟨x, y⟩)

theorem cleanAs_interior (r : Raster) : r.interior.CleanAs r := r.cleanAs_tabulate _

theorem isSet_interior : r.interior.isSet p.x p.y = decide (r.Interior p) := by
  unfold interior
  rw [isSet_tabulate]
  by_cases hp : r.Interior p
  · rw [decide_eq_true hp, decide_eq_true (hp.inside (Point.inCross_self p)), Bool.true_and]
  · rw [decide_eq_false hp, Bool.and_false]

theorem crossAt_invert (hp : r.Interior p) :
    r.invert.crossAt p.x p.y = (r.crossAt p.x p.y).flip := by
  obtain ⟨hx, hx', hy, hy'⟩ := hp
  have hbit : ∀ x y, x < r.width → y < r.height →
      r.invert.bit x y = !r.bit x y := fun x y hx hy => by
    rw [bit_invert hy (lt_stride_of_lt_width hx), decide_eq_true hx, Bool.true_and]
  unfold crossAt CrossPixels.flip
  simp only [decide_eq_true hx, decide_eq_true hy, Bool.true_and]
  rw [hbit p.x p.y (by omega) (by omega), hbit (p.x - 1) p.y (by omega) (by omega),
    hbit (p.x + 1) p.y hx' (by omega), hbit p.x (p.y - 1) (by omega) (by omega),
    hbit p.x (p.y + 1) (by omega) hy']

theorem PaddingClear.byRule_all (hr : r.PaddingClear) :
    r.byRule CrossPixels.all = r.erodePixelwise := by
  unfold byRule erodePixelwise
  congr 1
  funext x y
  rw [besides_eq]
  simp only [CrossPixels.all, crossAt, hr.bit_eq_isSet, List.all_cons, List.all_nil, id_eq,
    Bool.and_true, Bool.and_assoc]

theorem isSet_erode_invert_iff : r.invert.erodePixelwise.isSet p.x p.y = true ↔
    r.Interior p ∧ (r.byRule CrossPixels.any).isSet p.x p.y = false := by
  have hrule := (cleanAs_invert r).paddingClear.byRule_all
  have hflip : r.Interior p → r.invert.erodePixelwise.isSet p.x p.y =
      !(r.byRule CrossPixels.any).isSet p.x p.y := fun hp => by
    have hin := hp.inside (Point.inCross_self p)
    have hin' : r.invert.Inside p.x p.y := hin
    rw [← hrule, isSet_byRule hin, isSet_byRule hin', crossAt_invert hp, CrossPixels.all_flip]
  constructor
  · intro hset
    have hp : r.Interior p := borderClear_erodePixelwise r.invert p hset
    rw [hflip hp, Bool.not_eq_true'] at hset
    exact ⟨hp, hset⟩
  · rintro ⟨hp, hclear⟩
    rw [hflip hp, hclear, Bool.not_false]

/-- **Erosion is dual to dilation up to the border**, on every raster of two rows and columns,
padded as it may be: a pixel is set in the erosion of the complement exactly if it lies off the
border and is clear in the dilation, so that byte for byte this erosion is the complement of the
dilation with the border cleared. -/
theorem erosion_dual_to_dilation (s s' : Strategy) (hw : 2 ≤ r.width) (hh : 2 ≤ r.height) :
    ∃ d e, r.dilateWith s = .ok d ∧ r.invert.erodeWith s' = .ok e ∧
      (∀ p : Point, e.isSet p.x p.y = true ↔ r.Interior p ∧ d.isSet p.x p.y = false) ∧
      d.invert.and r.interior = .ok e := by
  have hinvert := cleanAs_invert r
  have hdilated := (cleanAs_invert (r.byRule CrossPixels.any)).trans r.cleanAs_byRule
  refine ⟨_, _, dilateWith_followsRule s r hw hh, erodeWith_eq s' hinvert.paddingClear hw hh,
    fun p => isSet_erode_invert_iff, ?_⟩
  refine combine_eq_of_isSet hdilated (cleanAs_interior r)
    ((cleanAs_erodePixelwise _).trans hinvert)
    fun x y hin => ?_
  rw [isSet_invert (r := r.byRule CrossPixels.any) hin, isSet_interior (p := ⟨x, y⟩),
    Bool.eq_iff_iff, isSet_erode_invert_iff (p := ⟨x, y⟩)]
  simp [Combination.onPixels, and_comm]

/-- Set pixels on both sides of the end of a byte, on the border, and in the padding. -/
theorem erosion_dual_to_dilation_padded :
    let r : Raster := ⟨10, 4, #[0x81, 0x3f, 0x00, 0x80, 0x04, 0x20, 0x00, 0x00], by decide, by decide,
      by decide⟩
    let s : Strategy := .parallel ⟨[2, 3]⟩
    2 ≤ r.width ∧ 2 ≤ r.height ∧ ∃ d e, r.dilateWith s = .ok d ∧
      r.invert.erodeWith .serial = .ok e ∧
      (∀ p : Point, e.isSet p.x p.y = true ↔ r.Interior p ∧ d.isSet p.x p.y = false) ∧
      d.invert.and r.interior = .ok e := by
  intro r s
  exact ⟨by decide, by decide, erosion_dual_to_dilation s .serial (by decide) (by decide)⟩

end Bitplane.Raster
