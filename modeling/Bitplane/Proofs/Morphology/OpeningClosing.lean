import Bitplane.Proofs.Morphology.CrossRules
import Bitplane.Proofs.Morphology.Crosses

/-! # Openings and closings

Opening erodes and then dilates, closing dilates and then erodes. Since an erosion that is dilated
and eroded again is what it was, both change nothing the second time; since dilation and erosion
keep inclusions, so do both. Erosion clears the border: an opening has set there what a cross
reaches, and a closing nothing.

* `isSet_openPixelwise_iff`, `isSet_closePixelwise_iff`: both by crosses.
* `IsOpening`, `IsClosing`: the laws of an opened and of a closed picture.
* `opening_unites_crosses`, `closing_bridges_gaps`: on every picture with clear padding the
  operators answer such a picture. -/

namespace Bitplane.Raster

open Point (InCross)

variable {r : Raster} {p : Point}

/-! ## Openings -/

/-- The picture opened pixel by pixel. -/
def openPixelwise (r : Raster) : Raster := r.erodePixelwise.dilatePixelwise

theorem opening_eq (hp : r.PaddingClear) (hw : 2 ≤ r.width) (hh : 2 ≤ r.height) :
    r.opening = .ok r.openPixelwise := by
  unfold opening erode
  rw [erodeWith_eq _ hp hw hh]
  exact dilateWith_eq _ (cleanAs_erodePixelwise r).paddingClear hw hh

theorem cleanAs_openPixelwise (r : Raster) : r.openPixelwise.CleanAs r :=
  (cleanAs_dilatePixelwise _).trans (cleanAs_erodePixelwise r)

theorem isSet_openPixelwise_iff : r.openPixelwise.isSet p.x p.y = true ↔
    ∃ q, r.HoldsCross q ∧ q.InCross p := by
  unfold openPixelwise
  rw [isSet_dilatePixelwise_iff]
  constructor
  · rintro ⟨-, q, hpq, hq⟩
    exact ⟨q, isSet_erodePixelwise_iff.mp hq, hpq.symm⟩
  · rintro ⟨q, hq, hqp⟩
    exact ⟨hq.1.inside hqp, q, hqp.symm, isSet_erodePixelwise_iff.mpr hq⟩

theorem opening_keepsInclusions : KeepsInclusions opening :=
  (erodeWith_keepsInclusions _).bind (dilateWith_keepsInclusions _)

theorem openPixelwise_openPixelwise (r : Raster) :
    r.openPixelwise.openPixelwise = r.openPixelwise :=
  congrArg dilatePixelwise (erode_dilate_erode r)

/-- **The laws of an opened picture.** -/
structure IsOpening (r o : Raster) : Prop where
  cleanAs : o.CleanAs r
  /-- A pixel is set if it lies in a cross of the picture. -/
  isSet_iff : ∀ p : Point, o.isSet p.x p.y = true ↔ ∃ q, r.HoldsCross q ∧ q.InCross p
  isSubset : o.isSubset r = .ok true
  opening_eq_self : o.opening = .ok o
  /-- The opening of a larger set of pixels is larger, however that is padded. -/
  mono : ∀ r', r.size = r'.size → r.isSubset r' = .ok true →
    ∃ o', r'.opening = .ok o' ∧ o.isSubset o' = .ok true

/-- **Opening unites the crosses in a picture**, whenever the padding is clear: it succeeds, sets
the pixels that lie in a cross of set pixels around a point off the border, stays inside the
picture, changes nothing the second time and keeps inclusions. -/
theorem opening_unites_crosses (hp : r.PaddingClear) (hw : 2 ≤ r.width) (hh : 2 ≤ r.height) :
    ∃ o, r.opening = .ok o ∧ r.IsOpening o := by
  have hclean := cleanAs_openPixelwise r
  have hopen := opening_eq hp hw hh
  refine ⟨_, hopen, hclean, fun p => isSet_openPixelwise_iff, ?_, ?_, fun r' hs hsub => ?_⟩
  · exact (isSubset_eq_true_iff hclean.paddingClear hp hclean.size_eq).mpr (dilate_erode_within r)
  · rw [opening_eq hclean.paddingClear hw hh, openPixelwise_openPixelwise]
  · exact opening_keepsInclusions.of_ok hopen hs hw hh hsub

/-- A cross over two bytes that reaches the border, and a pixel alone. -/
theorem opening_unites_crosses_border :
    let r : Raster := ⟨10, 4, #[0x01, 0x00, 0x03, 0x80, 0x01, 0x00, 0x80, 0x40], by decide, by decide,
      by decide⟩
    r.PaddingClear ∧ 2 ≤ r.width ∧ 2 ≤ r.height ∧ ∃ o, r.opening = .ok o ∧ r.IsOpening o := by
  intro r
  have hp : r.PaddingClear := by decide
  exact ⟨hp, by decide, by decide, opening_unites_crosses hp (by decide) (by decide)⟩

/-! ## Closings -/

/-- The picture closed pixel by pixel. -/
def closePixelwise (r : Raster) : Raster := r.dilatePixelwise.erodePixelwise

theorem closing_eq (hp : r.PaddingClear) (hw : 2 ≤ r.width) (hh : 2 ≤ r.height) :
    r.closing = .ok r.closePixelwise := by
  unfold closing dilate
  rw [dilateWith_eq _ hp hw hh]
  exact erodeWith_eq _ (cleanAs_dilatePixelwise r).paddingClear hw hh

theorem cleanAs_closePixelwise (r : Raster) : r.closePixelwise.CleanAs r :=
  (cleanAs_erodePixelwise _).trans (cleanAs_dilatePixelwise r)

/-- **Closing sets the pixels off the border every pixel of whose cross has a set one in
its own.** -/
theorem isSet_closePixelwise_iff : r.closePixelwise.isSet p.x p.y = true ↔
    r.Interior p ∧ ∀ q, p.InCross q → ∃ s, q.InCross s ∧ r.isSet s.x s.y = true := by
  unfold closePixelwise
  rw [isSet_erodePixelwise_iff]
  refine and_congr_right fun (hint : r.Interior p) =>
    forall_congr' fun q => imp_congr_right fun hq => ?_
  exact isSet_dilatePixelwise_iff.trans (and_iff_right (hint.inside hq))

theorem closing_keepsInclusions : KeepsInclusions closing :=
  (dilateWith_keepsInclusions _).bind (erodeWith_keepsInclusions _)

theorem closePixelwise_closePixelwise (r : Raster) :
    r.closePixelwise.closePixelwise = r.closePixelwise :=
  erode_dilate_erode r.dilatePixelwise

/-- **The laws of a closed picture.** -/
structure IsClosing (r c : Raster) : Prop where
  cleanAs : c.CleanAs r
  /-- A pixel off the border is set if each pixel of its cross is set or has a set neighbour. -/
  isSet_iff : ∀ p : Point, c.isSet p.x p.y = true ↔
    r.Interior p ∧ ∀ q, p.InCross q → ∃ s, q.InCross s ∧ r.isSet s.x s.y = true
  isSet_of_interior : ∀ p : Point, r.Interior p → r.isSet p.x p.y = true → c.isSet p.x p.y = true
  borderClear : c.BorderClear
  closing_eq_self : c.closing = .ok c
  /-- The closing of a larger set of pixels is larger, however that is padded. -/
  mono : ∀ r', r.size = r'.size → r.isSubset r' = .ok true →
    ∃ c', r'.closing = .ok c' ∧ c.isSubset c' = .ok true

/-- **Closing bridges the gaps in a picture**, whenever the padding is clear: it succeeds, sets the
pixels off the border each pixel of whose cross is set or has a set neighbour, and so keeps the set
pixels off the border; it clears the border, changes nothing the second time and
keeps inclusions. -/
theorem closing_bridges_gaps (hp : r.PaddingClear) (hw : 2 ≤ r.width) (hh : 2 ≤ r.height) :
    ∃ c, r.closing = .ok c ∧ r.IsClosing c := by
  have hclean := cleanAs_closePixelwise r
  have hclose := closing_eq hp hw hh
  refine ⟨_, hclose, hclean, fun p => isSet_closePixelwise_iff, fun p hint hset => ?_,
    borderClear_erodePixelwise _, ?_, fun r' hs hsub => ?_⟩
  · exact isSet_closePixelwise_iff.mpr ⟨hint, fun q hq => ⟨p, hq.symm, hset⟩⟩
  · rw [closing_eq hclean.paddingClear hw hh, closePixelwise_closePixelwise]
  · exact closing_keepsInclusions.of_ok hclose hs hw hh hsub

/-- A gap between two bytes, and pixels on the border, where they are lost. -/
theorem closing_bridges_gaps_border :
    let r : Raster := ⟨10, 4, #[0x81, 0x40, 0x03, 0x80, 0x05, 0x80, 0x03, 0x00], by decide, by decide,
      by decide⟩
    r.PaddingClear ∧ 2 ≤ r.width ∧ 2 ≤ r.height ∧ ∃ c, r.closing = .ok c ∧ r.IsClosing c := by
  intro r
  have hp : r.PaddingClear := by decide
  exact ⟨hp, by decide, by decide, closing_bridges_gaps hp (by decide) (by decide)⟩

end Bitplane.Raster
