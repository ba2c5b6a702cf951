import Bitplane.Proofs.Morphology.Nesting

/-! # Residues

The residue of a picture is what an operator takes away from it, as a picture of its own: the top
hat is the residue of the opening, and the gradient that of the erosion in the dilation. Since the
smaller picture lies in the larger, it and the residue share no pixel and have all pixels of the
larger together; were it to stick out, the residue would lack what sticks out and the union have too
much.

* `disjointUnion_of_subtract`: a picture inside another and what is left of that one partition it.
* `topHat_eq`, `gradient_eq`: both residues are differences.
* `residues_complete_pictures`: the opening and the top hat partition the picture, the erosion and
  the gradient its dilation. -/

namespace Bitplane.Raster

variable {a b c r : Raster}

/-- **The third picture is the disjoint union of the first two**, as the bytes are combined and
counted. -/
structure DisjointUnion (a b c : Raster) : Prop where
  or_eq : a.or b = .ok c
  and_isEmpty : ∃ i, a.and b = .ok i ∧ i.isEmpty = true
  count_add_count : a.count + b.count = c.count

theorem isEmpty_template (r : Raster) : r.template.isEmpty = true := by
  rw [isEmpty_iff_bit]
  intro x y
  rw [r.paddingClear_template.bit_eq_isSet, isSet_template]

/-- **A picture inside another and what is left of that one** partition it. -/
theorem disjointUnion_of_subtract (ha : a.CleanAs r) (hc : c.CleanAs r) (hac : a.Within c)
    (hb : c.subtract a = .ok b) : DisjointUnion a b c := by
  have hbr : b.CleanAs r := (cleanAs_combine hc.paddingClear ha.paddingClear hb).1.trans hc
  have hleft : ∀ x y, b.isSet x y = (c.isSet x y && !a.isSet x y) := fun x y => by
    have hbit := bit_combine (hc.size_eq.trans ha.size_eq.symm) hb x y
    rwa [hbr.paddingClear.bit_eq_isSet, hc.paddingClear.bit_eq_isSet,
      ha.paddingClear.bit_eq_isSet] at hbit
  have hor : a.or b = .ok c := combine_eq_of_isSet ha hbr hc fun x y _ => by
    rw [hleft]
    have := hac ⟨x, y⟩
    cases hset : a.isSet x y with
    | false => simp [Combination.onPixels]
    | true => simp [Combination.onPixels, this hset]
  have hand : a.and b = .ok r.template :=
    combine_eq_of_isSet ha hbr r.cleanAs_template fun x y _ => by
      rw [isSet_template, hleft]
      cases a.isSet x y with
      | false => rfl
      | true => simp [Combination.onPixels]
  refine ⟨hor, ⟨_, hand, isEmpty_template r⟩, ?_⟩
  -- union and intersection count as much as both pictures, and the intersection counts nothing
  have hsame := setsOfOneSize ha.paddingClear hbr.paddingClear (ha.width_eq.trans hbr.width_eq.symm)
    (ha.height_eq.trans hbr.height_eq.symm)
  obtain ⟨u, i, -, hu, hi, -, -, hcount⟩ := hsame.or_and_xor
  obtain rfl : c = u := Except.ok.inj (hor.symm.trans hu)
  obtain rfl : r.template = i := Except.ok.inj (hand.symm.trans hi)
  rwa [count_template, Nat.add_zero] at hcount

/-! ## The two residues -/

theorem topHat_eq (hp : r.PaddingClear) (hw : 2 ≤ r.width) (hh : 2 ≤ r.height) :
    r.topHat = (r.subtract r.openPixelwise).mapError .raster := by
  unfold topHat
  rw [opening_eq hp hw hh]
  rfl

theorem gradient_eq (hp : r.PaddingClear) (hw : 2 ≤ r.width) (hh : 2 ≤ r.height) :
    r.gradient = (r.dilatePixelwise.subtract r.erodePixelwise).mapError .raster := by
  unfold gradient dilate erode
  rw [dilateWith_eq _ hp hw hh, erodeWith_eq _ hp hw hh]
  rfl

theorem exists_subtract (hs : c.size = a.size) : ∃ b, c.subtract a = .ok b := by
  obtain ⟨b, hb, -⟩ := combine_eq .subtract (Prod.mk.inj hs).1 (Prod.mk.inj hs).2
  exact ⟨b, hb⟩

/-- **Residues complete their pictures**: on every picture with clear padding all operators succeed,
the picture is the disjoint union of its opening and its top hat, and its dilation that of its
erosion and its gradient, byte for byte and in the number of pixels. -/
theorem residues_complete_pictures (s : Strategy) (hp : r.PaddingClear) (hw : 2 ≤ r.width)
    (hh : 2 ≤ r.height) :
    ∃ o t d e g, r.opening = .ok o ∧ r.topHat = .ok t ∧ r.dilateWith s = .ok d ∧
      r.erodeWith s = .ok e ∧ r.gradient = .ok g ∧ DisjointUnion o t r ∧ DisjointUnion e g d := by
  have ho := cleanAs_openPixelwise r
  have he := cleanAs_erodePixelwise r
  have hd := cleanAs_dilatePixelwise r
  obtain ⟨t, ht⟩ := exists_subtract ho.size_eq.symm
  obtain ⟨g, hg⟩ := exists_subtract (hd.size_eq.trans he.size_eq.symm)
  have hopen : r.openPixelwise.Within r := dilate_erode_within r
  have herode : r.erodePixelwise.Within r.dilatePixelwise :=
    ((erodePixelwise_within_open r).trans hopen).trans (within_dilatePixelwise r)
  refine ⟨_, t, _, _, g, opening_eq hp hw hh, ?_, dilateWith_eq s hp hw hh, erodeWith_eq s hp hw hh,
    ?_, disjointUnion_of_subtract ho hp.cleanAs hopen ht, disjointUnion_of_subtract he hd herode hg⟩
  · rw [topHat_eq hp hw hh, ht]
    rfl
  · rw [gradient_eq hp hw hh, hg]
    rfl

/-- A cross over two bytes that reaches the border, and a pixel alone. -/
theorem residues_complete_pictures_border :
    let r : Raster := ⟨10, 4, #[0x01, 0x00, 0x03, 0x80, 0x01, 0x00, 0x80, 0x40], by decide, by decide,
      by decide⟩
    let s : Strategy := .parallel ⟨[2, 3]⟩
    r.PaddingClear ∧ 2 ≤ r.width ∧ 2 ≤ r.height ∧ ∃ o t d e g,
      r.opening = .ok o ∧ r.topHat = .ok t ∧ r.dilateWith s = .ok d ∧ r.erodeWith s = .ok e ∧
      r.gradient = .ok g ∧
      DisjointUnion o t r ∧ DisjointUnion e g d := by
  intro r s
  have hp : r.PaddingClear := by decide
  exact ⟨hp, by decide, by decide, residues_complete_pictures s hp (by decide) (by decide)⟩

end Bitplane.Raster
