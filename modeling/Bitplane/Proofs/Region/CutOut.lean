import Bitplane.Proofs.Region.ExtractionPasses

/-! # Boxes cut out the labels of a grid

* `get?_foldl_paint`: a grid on which boxes are painted shows the label of the boxes that contain a
  point, if they agree on it.
* `foldl_paint`: painted on background the boxes of a grid give it back.
* `boxes_cut_out_labels`: whatever the labels, and whether or not the pixels of a label hang
  together, the boxes are made without a step out of range, cut out the pixels of every label in
  use, and give the grid back. -/

namespace Bitplane

open Region

namespace LabelGrid

variable {g e : LabelGrid} {b : Box} {bs : List Box} {count l x y : Nat}

/-! ## Painting -/

/-- **The label of a box written on every point that it contains.** -/
def paint (g : LabelGrid) (b : Box) : LabelGrid :=
  g.update .serial fun y row => row.mapIdx fun x l => if b.contains x y then b.label else l

theorem get?_paint (hx : x < g.width) (hy : y < g.height) :
    (g.paint b).get? x y = if b.contains x y then some b.label else g.get? x y := by
  have hkeep : Rows.KeepsLength g.width g.height fun y row =>
      row.mapIdx fun x l => if b.contains x y then b.label else l := fun _ _ _ hrow => by
    rwa [List.length_mapIdx]
  have hlt : x < (g.row y).length := by rwa [length_row hy]
  unfold paint
  rw [get?_eq (g := g.update _ _) hx hy, row_update hkeep hy, get?_eq hx hy, List.getElem?_mapIdx,
    List.getElem?_eq_getElem hlt, Option.map_some]
  split <;> rfl

theorem get?_foldl_paint (hx : x < g.width) (hy : y < g.height)
    (h : ∀ b ∈ bs, b.contains x y = true → b.label = l) :
    (bs.foldl paint g).get? x y = if ∃ b ∈ bs, b.contains x y = true then some l else g.get? x y := by
  induction bs generalizing g with
  | nil => simp
  | cons b bs ih =>
    have hhead := h b List.mem_cons_self
    rw [List.foldl_cons, ih (g := g.paint b) hx hy fun c hc => h c (List.mem_cons_of_mem b hc),
      get?_paint hx hy]
    by_cases hb : b.contains x y = true
    · simp [hb, hhead hb]
    · simp [hb]

theorem width_foldl_paint : (bs.foldl paint g).width = g.width := by
  induction bs generalizing g with
  | nil => rfl
  | cons b bs ih => exact ih

theorem height_foldl_paint : (bs.foldl paint g).height = g.height := by
  induction bs generalizing g with
  | nil => rfl
  | cons b bs ih => exact ih

/-- **The boxes of a grid painted on background give it back.** -/
theorem foldl_paint (h : GridBoxes g bs) (hw : e.width = g.width) (hh : e.height = g.height)
    (hzero : ∀ x y, x < e.width → y < e.height → e.get? x y = some 0) : bs.foldl paint e = g := by
  refine eq_of_get? (width_foldl_paint.trans hw) (height_foldl_paint.trans hh) fun y hy x hx => ?_
  rw [height_foldl_paint] at hy
  rw [width_foldl_paint] at hx
  obtain ⟨l, hl⟩ := Option.isSome_iff_exists.mp (get?_isSome_iff.mpr ⟨hw ▸ hx, hh ▸ hy⟩)
  have hcontains : ∀ b ∈ bs, (b.contains x y = true ↔ b.label = l) := fun b hb => by
    rw [(h.cutsOut b hb).contains_iff, hl, Option.some.injEq, eq_comm]
  rw [get?_foldl_paint hx hy fun b hb => (hcontains b hb).mp, hl]
  split
  next => rfl
  next hno =>
    have hmem : l ∈ g.labels := by
      rw [get?, if_pos ⟨hw ▸ hx, hh ▸ hy⟩] at hl
      exact Array.mem_of_getElem? hl
    have hl0 : l = 0 := Decidable.byContradiction fun hne =>
      have ⟨b, hb, hbl⟩ := (h.label_mem_iff l).mpr ⟨hne, hmem⟩
      hno ⟨b, hb, (hcontains b hb).mpr hbl⟩
    rw [hzero x y hx hy, hl0]

theorem blank?_eq :
    ∃ e, blank? g.width g.height = .ok e ∧ e.width = g.width ∧ e.height = g.height ∧
      ∀ x y, x < e.width → y < e.height → e.get? x y = some 0 := by
  refine ⟨⟨g.width, g.height, Array.replicate (g.width * g.height) 0, g.width_pos, g.height_pos,
    Array.size_replicate⟩, ?_, rfl, rfl, fun x y hx hy => ?_⟩
  · unfold blank? ofLabels?
    rw [dif_pos g.width_pos, dif_pos g.height_pos, dif_pos Array.size_replicate]
  · have hx' : x < g.width := hx
    have hlt : y * g.width + x < g.width * g.height := by
      have := Nat.mul_le_mul_right g.width (Nat.succ_le_of_lt (show y < g.height from hy))
      rw [Nat.succ_mul, Nat.mul_comm g.height] at this
      omega
    rw [get?, if_pos ⟨hx, hy⟩, Array.getElem?_replicate, if_pos hlt]

/-! ## Cutting out -/

theorem le_of_maxLabel_le (h : g.maxLabel ≤ count) (hl : l ∈ g.labels) : l ≤ count :=
  Nat.le_trans (le_maxLabel_of_mem hl) h

/-- **The boxes cut out the labels of every grid**, for a count not below the largest label, on
sides that fit a word of 32 bits: the extraction in two passes takes no step out of range and
answers the boxes of the labels in use in their order, each with the least rectangle and the mask of
its label's pixels, and painted on background they give the grid back. -/
theorem boxes_cut_out_labels (hw : g.width < wordLimit) (hh : g.height < wordLimit)
    (hcount : count < wordLimit)
    (hmax : g.maxLabel ≤ count) :
    ∃ bs, g.extract count = .ok bs ∧ g.boxes count = .ok bs ∧ GridBoxes g bs ∧
      ∃ e, blank? g.width g.height = .ok e ∧ bs.foldl paint e = g := by
  obtain ⟨bs, hbs, hboxes⟩ := exists_gridBoxes fun l hl => le_of_maxLabel_le hmax hl
  obtain ⟨e, he, hew, heh, hzero⟩ := blank?_eq (g := g)
  refine ⟨bs, ?_, hbs, hboxes, e, he, foldl_paint hboxes hew heh hzero⟩
  rw [extract_eq hw hh hcount, hbs]
  rfl

/-- Two labels in pieces that lie in each other's rectangles, and labels between them without
pixels. -/
theorem boxes_cut_out_labels_interleaved :
    let g : LabelGrid := ⟨9, 2, #[0, 0, 7, 0, 0, 0, 0, 0, 2, 2, 0, 0, 0, 0, 0, 0, 0, 7], by decide,
      by decide, by decide⟩
    g.width < wordLimit ∧ g.height < wordLimit ∧ 8 < wordLimit ∧ g.maxLabel ≤ 8 ∧
      ∃ bs, g.extract 8 = .ok bs ∧ g.boxes 8 = .ok bs ∧ GridBoxes g bs ∧
        ∃ e, blank? 9 2 = .ok e ∧ bs.foldl paint e = g := by
  intro g
  have hmax : g.maxLabel ≤ 8 := by decide
  exact ⟨by decide, by decide, by decide, hmax,
    boxes_cut_out_labels (by decide) (by decide) (by decide) hmax⟩

end LabelGrid

end Bitplane
