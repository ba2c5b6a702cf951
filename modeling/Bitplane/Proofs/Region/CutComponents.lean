import Bitplane.Proofs.Region.ComponentMasks
import Bitplane.Proofs.Region.GridBoxes

/-! # Boxes cut out the components of a picture

* `ComponentBoxes r c count bs`: the boxes are those of the components `1, …, count` of a picture.
* `contains_iff_labelAt`: on a grid that numbers the components a box contains the set pixels of its
  label, so it holds a component (`holdsComponent`), and its top row is that of the component's
  first pixel (`y_eq_of_startsComponent`).
* `componentBoxes_of_gridBoxes`: the boxes of such a grid are those of the components.
* `components_cut_out_components`: whenever labeling succeeds the boxes are made, and cut out the
  components of the picture, or of what the removal of isolated pixels leaves of it. -/

namespace Bitplane

open Region

namespace Raster

variable {r : Raster} {c : Connectivity} {g : LabelGrid} {o : Options} {b : Box} {bs : List Box}
  {p : Point} {count k : Nat}

/-- **The boxes are those of the components** `1, …, count` of a picture, in this order. -/
structure ComponentBoxes (r : Raster) (c : Connectivity) (count : Nat) (bs : List Box) : Prop where
  map_label : bs.map (·.label) = List.range' 1 count
  /-- A set pixel lies in one box, a clear one and a point outside the picture in none. -/
  countP_contains : ∀ x y, bs.countP (·.contains x y) = if r.isSet x y then 1 else 0
  /-- The pixels of a box are joined to each other, and to no other. -/
  holds : ∀ b ∈ bs, b.HoldsComponent r c
  /-- No box starts above one before it. -/
  y_le : bs.Pairwise fun a b => a.y ≤ b.y
  /-- A mask that can be labeled has one component. -/
  countComponents_mask : ∀ b ∈ bs, 2 ≤ b.mask.width → 2 ≤ b.mask.height →
    b.mask.countComponents c = .ok 1

/-! ## Boxes of a grid that numbers the components -/

section

variable (h : r.NumbersComponents c g.labels count) (hw : g.width = r.width)
  (hh : g.height = r.height)
include h hw hh

theorem get?_eq_some_iff_labelAt (h0 : k ≠ 0) :
    g.get? p.x p.y = some k ↔ r.isSet p.x p.y = true ∧ r.labelAt g.labels p = k := by
  unfold LabelGrid.get?
  rw [hw, hh]
  by_cases hin : p.x < r.width ∧ p.y < r.height
  · rw [if_pos hin]
    refine (getElem?_eq_some_iff_labelAt h.size_labels hin).trans ⟨fun hk => ⟨?_, hk⟩, And.right⟩
    by_contra hclear
    exact h0 (hk ▸ (h.zero_iff p hin).mpr (by simpa using hclear))
  · rw [if_neg hin]
    exact ⟨nofun, fun hset => absurd (inside_of_isSet hset.1) hin⟩

variable (hboxes : GridBoxes g bs)
include hboxes

theorem contains_iff_labelAt (hb : b ∈ bs) : b.contains p.x p.y = true ↔
    r.isSet p.x p.y = true ∧ r.labelAt g.labels p = b.label := by
  have h0 : b.label ≠ 0 := ((hboxes.label_mem_iff b.label).mp ⟨b, hb, rfl⟩).1
  rw [(hboxes.cutsOut b hb).contains_iff, get?_eq_some_iff_labelAt h hw hh h0]

omit hw hh in
theorem map_label_eq : bs.map (·.label) = List.range' 1 count := by
  refine (List.pairwise_map.mpr hboxes.ordered).eq_of_mem_iff List.pairwise_lt_range' fun k => ?_
  rw [List.mem_map, hboxes.label_mem_iff, List.mem_range'_1]
  constructor
  · rintro ⟨h0, hk⟩
    have := (h.mem_iff k h0).mp hk
    omega
  · rintro ⟨hpos, hk⟩
    exact ⟨by omega, (h.mem_iff k (by omega)).mpr (by omega)⟩

theorem countP_contains_eq (x y : Nat) :
    bs.countP (·.contains x y) = if r.isSet x y then 1 else 0 := by
  have hcontains := fun b hb => contains_iff_labelAt h hw hh hboxes (b := b) (p := ⟨x, y⟩) hb
  by_cases hset : r.isSet x y = true
  · have hlabel : ∀ b ∈ bs, (b.contains x y = true ↔ (b.label == r.labelAt g.labels ⟨x, y⟩) = true) :=
      fun b hb => by rw [hcontains b hb, and_iff_right hset, beq_iff_eq, eq_comm]
    have h0 := h.labelAt_ne_zero (p := ⟨x, y⟩) hset
    have hle := h.labelAt_le (p := ⟨x, y⟩) hset
    calc bs.countP (·.contains x y)
        = bs.countP (·.label == r.labelAt g.labels ⟨x, y⟩) := List.countP_congr hlabel
      _ = (bs.map (·.label)).count (r.labelAt g.labels ⟨x, y⟩) := by
        rw [List.count_eq_countP, List.countP_map]
        rfl
      _ = 1 := by
        rw [map_label_eq h hboxes]
        exact List.count_eq_one_of_mem (List.nodup_range' 1) (List.mem_range'_1.mpr (by omega))
      _ = if r.isSet x y then 1 else 0 := (if_pos hset).symm
  · rw [if_neg hset]
    exact List.countP_eq_zero.mpr fun b hb hc => hset ((hcontains b hb).mp hc).1

theorem holdsComponent (hb : b ∈ bs) : b.HoldsComponent r c where
  exists_contains := by
    have hcut := hboxes.cutsOut b hb
    obtain ⟨x, hx⟩ := hcut.bounds.top
    exact ⟨⟨x, b.y⟩, (hcut.contains_iff x b.y).mpr hx⟩
  contains_iff p q hp := by
    obtain ⟨hset, hlabel⟩ := (contains_iff_labelAt h hw hh hboxes hb).mp hp
    rw [contains_iff_labelAt h hw hh hboxes hb]
    constructor
    · rintro ⟨hset', hlabel'⟩
      exact (h.eq_iff p q hset hset').mp (hlabel.trans hlabel'.symm)
    · intro hj
      exact ⟨hj.isSet_right, ((h.eq_iff p q hset hj.isSet_right).mpr hj).symm.trans hlabel⟩

/-- **A box starts in the row of its component's first pixel.** -/
theorem y_eq_of_startsComponent (hb : b ∈ bs) (hp : r.StartsComponent c p)
    (hlabel : r.labelAt g.labels p = b.label) : b.y = p.y := by
  have hcut := hboxes.cutsOut b hb
  have hpb := (contains_iff_labelAt h hw hh hboxes hb).mpr ⟨hp.1, hlabel⟩
  obtain ⟨x, hx⟩ := hcut.bounds.top
  have htop : b.contains x b.y = true := (hcut.contains_iff x b.y).mpr hx
  have hj := ((holdsComponent h hw hh hboxes hb).contains_iff p ⟨x, b.y⟩ hpb).mp htop
  refine Nat.le_antisymm (hcut.bounds.holds p.x p.y ((hcut.contains_iff p.x p.y).mp hpb)).2.1 ?_
  exact y_le_of_placeOf_le (inside_of_isSet hp.1).1 (inside_of_isSet hj.isSet_right).1 (hp.2 _ hj)

theorem pairwise_y_le : bs.Pairwise fun a b => a.y ≤ b.y := by
  have hfirst : ∀ b ∈ bs, ∃ p, r.StartsComponent c p ∧ r.labelAt g.labels p = b.label := by
    intro b hb
    obtain ⟨h0, hmem⟩ := (hboxes.label_mem_iff b.label).mp ⟨b, hb, rfl⟩
    exact h.exists_first h0 ((h.mem_iff b.label h0).mp hmem)
  refine hboxes.ordered.imp_of_mem fun {a b} ha hb hab => ?_
  obtain ⟨p, hp, hpa⟩ := hfirst a ha
  obtain ⟨q, hq, hqb⟩ := hfirst b hb
  rw [y_eq_of_startsComponent h hw hh hboxes ha hp hpa,
    y_eq_of_startsComponent h hw hh hboxes hb hq hqb]
  exact y_le_of_placeOf_le (inside_of_isSet hp.1).1 (inside_of_isSet hq.1).1
    (h.ordered p q hp hq (by omega)).le

/-- **The boxes of a grid that numbers the components are those of the components.** -/
theorem componentBoxes_of_gridBoxes (hruns : r.runCount < runLimit) :
    r.ComponentBoxes c count bs where
  map_label := map_label_eq h hboxes
  countP_contains := countP_contains_eq h hw hh hboxes
  holds _ hb := holdsComponent h hw hh hboxes hb
  y_le := pairwise_y_le h hw hh hboxes
  countComponents_mask _ hb := (holdsComponent h hw hh hboxes hb).countComponents_mask hruns

end

/-! ## Boxes of a picture -/

theorem exists_labelSource (o : Options) (hp : r.PaddingClear) (hw : 2 ≤ r.width)
    (hh : 2 ≤ r.height) : ∃ s, r.labelSource o = .ok s ∧ s.width = r.width ∧ s.height = r.height ∧
      if o.filterIsolated then r.filterIsolated = .ok s else s = r := by
  cases hf : o.filterIsolated with
  | false => exact ⟨r, labelSource_of_unfiltered hf, rfl, rfl, rfl⟩
  | true =>
    exact ⟨r.filterIsolatedPixelwise, labelSource_of_filtered hf hp hw hh, rfl, rfl,
      filterIsolatedWith_eq .standard hp hw hh⟩

theorem exists_gridBoxes_of_label {l : Labeling} (hf : o.filterIsolated = false)
    (hl : r.label o = .ok l) : ∃ bs, l.grid.boxes l.count = .ok bs ∧ GridBoxes l.grid bs := by
  obtain ⟨-, -, hnumbers⟩ := numbersComponents_of_label hf hl
  refine exists_gridBoxes fun k hk => ?_
  rcases Nat.eq_zero_or_pos k with rfl | hpos
  · exact Nat.zero_le _
  · exact (hnumbers.mem_iff k hpos.ne').mp hk

theorem exists_componentBoxes {l : Labeling} (hf : o.filterIsolated = false)
    (hl : r.label o = .ok l) :
    ∃ bs, l.grid.boxes l.count = .ok bs ∧ r.ComponentBoxes o.connectivity l.count bs := by
  obtain ⟨hw, hh, hnumbers⟩ := numbersComponents_of_label hf hl
  obtain ⟨bs, hbs, hboxes⟩ := exists_gridBoxes_of_label hf hl
  exact ⟨bs, hbs, componentBoxes_of_gridBoxes hnumbers hw hh hboxes (runCount_lt_of_label hf hl)⟩

theorem mask_of_components (hp : r.PaddingClear) (hbs : r.components o = .ok bs) (hb : b ∈ bs) :
    b.mask.PaddingClear ∧ b.mask.width ≤ r.width ∧ b.mask.height ≤ r.height := by
  obtain ⟨l, hl, hboxes⟩ := exists_of_bind_ok hbs
  obtain ⟨hw2, hh2⟩ := sides_of_label hl
  obtain ⟨s, hs, hw, hh, -⟩ := exists_labelSource o hp hw2 hh2
  have hls : s.label (o.withFilterIsolated false) = .ok l := by
    rwa [← label_of_labelSource hs hw hh]
  obtain ⟨hgw, hgh, -⟩ := numbersComponents_of_label rfl hls
  obtain ⟨bs', hbs', hgrid⟩ := exists_gridBoxes_of_label rfl hls
  obtain rfl : bs' = bs := Except.ok.inj (hbs'.symm.trans hboxes)
  have hcut := hgrid.cutsOut b hb
  obtain ⟨px, py, hright, hx⟩ := hcut.bounds.right
  obtain ⟨qx, qy, hbottom, hy⟩ := hcut.bounds.bottom
  have hpx := (LabelGrid.get?_isSome_iff.mp (Option.isSome_of_eq_some hright)).1
  have hqy := (LabelGrid.get?_isSome_iff.mp (Option.isSome_of_eq_some hbottom)).2
  have hmask := hcut.mask_width
  have hheight := hcut.mask_height
  have htop := hcut.bounds.holds qx qy hbottom
  refine ⟨hcut.mask_paddingClear, by omega, by omega⟩

/-- **The boxes of a picture cut out its components**, whenever labeling succeeds and the padding is
clear: there are as many as labeling counts, each set pixel lies in one of them, and each mask has
one component. Where isolated pixels are removed first, this is said of the picture that is left. -/
theorem components_cut_out_components {l : Labeling} (hp : r.PaddingClear)
    (hl : r.label o = .ok l) :
    ∃ s bs, (if o.filterIsolated then r.filterIsolated = .ok s else s = r) ∧
      r.components o = .ok bs ∧ s.ComponentBoxes o.connectivity l.count bs := by
  obtain ⟨hw2, hh2⟩ := sides_of_label hl
  obtain ⟨s, hs, hw, hh, hsource⟩ := exists_labelSource o hp hw2 hh2
  have hls : s.label (o.withFilterIsolated false) = .ok l := by
    rwa [← label_of_labelSource hs hw hh]
  obtain ⟨bs, hbs, hboxes⟩ := exists_componentBoxes rfl hls
  refine ⟨s, bs, hsource, ?_, hboxes⟩
  unfold components
  rw [hl]
  exact hbs

/-- Two components, one of pixels that meet at a corner, and two isolated pixels that
are removed. -/
theorem components_cut_out_components_corner :
    let r : Raster := ⟨10, 3, #[0x81, 0x80, 0x31, 0x00, 0x0c, 0x40], by decide, by decide, by decide⟩
    let o : Options := ⟨.eight, .eager, true, .parallel ⟨[2, 0]⟩⟩
    let l : Labeling := ⟨⟨10, 3, #[0, 0, 0, 0, 0, 0, 0, 1, 1, 0, 0, 0, 2, 2, 0, 0, 0, 1, 0, 0, 0, 0, 0,
      0, 2, 2, 0, 0, 0, 0], by decide, by decide, by decide⟩, 2⟩
    r.PaddingClear ∧ r.label o = .ok l ∧ ∃ s bs, r.filterIsolated = .ok s ∧
      r.components o = .ok bs ∧ s.ComponentBoxes .eight 2 bs := by
  intro r o l
  have hp : r.PaddingClear := by decide
  have hl : r.label o = .ok l := by decide +kernel
  exact ⟨hp, hl, components_cut_out_components hp hl⟩

end Raster

end Bitplane
