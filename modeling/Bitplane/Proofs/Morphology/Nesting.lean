import Bitplane.Proofs.Morphology.OpeningClosing

/-! # Nested pictures

The answers of the operators to one picture lie in each other: the erosion in the opening, the
opening in the picture without its isolated pixels, this in the picture, and the picture in its
dilation. A pixel beside which another is set is beside that one in turn, so that the removal of
isolated pixels leaves none: what is removed supports nothing that stays.

* `erodePixelwise_within_open`, `openPixelwise_within_filter`, `filterIsolatedPixelwise_within`,
  `within_dilatePixelwise`: the links of the chain.
* `filterIsolated_filterIsolated`: isolated pixels are removed at once.
* `operators_nest`: the chain as the comparison of bytes decides it. -/

namespace Bitplane

namespace Raster

open Point (inCross_self)

variable {r : Raster} {p : Point}

/-! ## The links of the chain -/

theorem erodePixelwise_within_open (r : Raster) :
    r.erodePixelwise.Within r.openPixelwise := fun p hp =>
  isSet_openPixelwise_iff.mpr ⟨p, isSet_erodePixelwise_iff.mp hp, inCross_self p⟩

/-- **No pixel of an opening is isolated**: the middle of a cross and its arms are beside each
other. -/
theorem openPixelwise_within_filter (r : Raster) :
    r.openPixelwise.Within r.filterIsolatedPixelwise := by
  intro p hp
  obtain ⟨q, hq, rfl | hqp⟩ := isSet_openPixelwise_iff.mp hp
  · have harm := Point.adjacent_right .four p.x p.y
    exact isSet_filterIsolatedPixelwise_iff.mpr ⟨hq.isSet, _, harm, hq.2 _ (.inr harm)⟩
  · exact isSet_filterIsolatedPixelwise_iff.mpr ⟨hq.2 p (.inr hqp), q, hqp.symm, hq.isSet⟩

theorem filterIsolatedPixelwise_within (r : Raster) :
    r.filterIsolatedPixelwise.Within r := fun _ hp =>
  (isSet_filterIsolatedPixelwise_iff.mp hp).1

theorem within_dilatePixelwise (r : Raster) : r.Within r.dilatePixelwise := fun p hp =>
  isSet_dilatePixelwise_iff.mpr ⟨inside_of_isSet hp, p, inCross_self p, hp⟩

/-! ## The removal of isolated pixels -/

theorem cleanAs_filterIsolatedPixelwise (r : Raster) : r.filterIsolatedPixelwise.CleanAs r :=
  r.cleanAs_tabulate _

theorem filterIsolated_filterIsolated (r : Raster) :
    r.filterIsolatedPixelwise.filterIsolatedPixelwise = r.filterIsolatedPixelwise := by
  have hclean := cleanAs_filterIsolatedPixelwise r
  have hagain := cleanAs_filterIsolatedPixelwise r.filterIsolatedPixelwise
  refine (filterIsolatedPixelwise_within _).antisymm (fun p hp => ?_) hagain.paddingClear
    hclean.paddingClear hagain.size_eq
  obtain ⟨hset, q, hpq, hq⟩ := isSet_filterIsolatedPixelwise_iff.mp hp
  have hqstays := isSet_filterIsolatedPixelwise_iff.mpr ⟨hq, p, hpq.symm, hset⟩
  exact isSet_filterIsolatedPixelwise_iff.mpr ⟨hp, q, hpq, hqstays⟩

/-! ## The chain -/

/-- **The operators nest** on every picture whose padding is clear: all of them succeed, the erosion
lies in the opening, the opening in what the removal of isolated pixels leaves, this in the picture
and the picture in its dilation. A second removal changes nothing, and the removal leaves more of a
raster of the same size with more pixels set, whatever its padding. -/
theorem operators_nest (s : Strategy) (hp : r.PaddingClear) (hw : 2 ≤ r.width) (hh : 2 ≤ r.height) :
    ∃ e o f d, r.erodeWith s = .ok e ∧ r.opening = .ok o ∧ r.filterIsolatedWith s = .ok f ∧
      r.dilateWith s = .ok d ∧
      e.isSubset o = .ok true ∧ o.isSubset f = .ok true ∧ f.isSubset r = .ok true ∧
      r.isSubset d = .ok true ∧
      f.filterIsolatedWith s = .ok f ∧
      ∀ r', r.size = r'.size → r.isSubset r' = .ok true →
        ∃ f', r'.filterIsolatedWith s = .ok f' ∧ f.isSubset f' = .ok true := by
  have he := cleanAs_erodePixelwise r
  have ho := cleanAs_openPixelwise r
  have hf := cleanAs_filterIsolatedPixelwise r
  have hd := cleanAs_dilatePixelwise r
  have hcompare : ∀ {a b : Raster}, a.CleanAs r → b.CleanAs r → a.Within b →
      a.isSubset b = .ok true :=
    fun ha hb => (isSubset_eq_true_iff ha.paddingClear hb.paddingClear
      (ha.size_eq.trans hb.size_eq.symm)).mpr
  have hfilter := filterIsolatedWith_eq s hp hw hh
  refine ⟨_, _, _, _, erodeWith_eq s hp hw hh, opening_eq hp hw hh, hfilter,
    dilateWith_eq s hp hw hh,
    hcompare he ho (erodePixelwise_within_open r), hcompare ho hf (openPixelwise_within_filter r),
    hcompare hf hp.cleanAs (filterIsolatedPixelwise_within r),
    hcompare hp.cleanAs hd (within_dilatePixelwise r), ?_, fun r' hs hsub => ?_⟩
  · rw [filterIsolatedWith_eq s hf.paddingClear hw hh, filterIsolated_filterIsolated]
  · exact (filterIsolatedWith_keepsInclusions s).of_ok hfilter hs hw hh hsub

/-- A cross over two bytes, a pair of pixels and a pixel alone; and a raster with more pixels set,
some of them padding. -/
theorem operators_nest_across_bytes :
    let r : Raster := ⟨10, 4, #[0x01, 0x00, 0x03, 0x80, 0x81, 0x00, 0x80, 0x40], by decide, by decide,
      by decide⟩
    let r' : Raster := ⟨10, 4, #[0x01, 0x04, 0x03, 0xc0, 0x81, 0x00, 0x80, 0x60], by decide, by decide,
      by decide⟩
    r.PaddingClear ∧ 2 ≤ r.width ∧ 2 ≤ r.height ∧ r.size = r'.size ∧ r.isSubset r' = .ok true ∧
      ∃ e o f d f', r.erodeWith .serial = .ok e ∧ r.opening = .ok o ∧
        r.filterIsolatedWith .serial = .ok f ∧ r.dilateWith .serial = .ok d ∧
        e.isSubset o = .ok true ∧ o.isSubset f = .ok true ∧ f.isSubset r = .ok true ∧
        r.isSubset d = .ok true ∧ f.filterIsolatedWith .serial = .ok f ∧
        r'.filterIsolatedWith .serial = .ok f' ∧ f.isSubset f' = .ok true := by
  intro r r'
  have hp : r.PaddingClear := by decide
  have hsub : r.isSubset r' = .ok true := by decide
  obtain ⟨e, o, f, d, he, ho, hf, hd, heo, hof, hfr, hrd, hff, hmono⟩ :=
    operators_nest .serial hp (by decide) (by decide)
  obtain ⟨f', hf', hle⟩ := hmono r' rfl hsub
  exact ⟨hp, by decide, by decide, rfl, hsub, e, o, f, d, f', he, ho, hf, hd, heo, hof, hfr, hrd,
    hff, hf', hle⟩

end Raster

end Bitplane
