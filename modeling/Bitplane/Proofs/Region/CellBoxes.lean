import Bitplane.LabelGrid.Lemmas
import Bitplane.Raster.Lemmas
import Bitplane.Region.Box

/-! # The box of a list of cells

* `Bounds S x y w h`: the rectangle is the least that holds the points of `S`; `Extent.spans_foldl`:
  the extent of cells, widened by one after the other, spans them.
* `Drawn m x₀ y₀ cs`: the mask `m`, whose first pixel lies at `(x₀, y₀)`, has the pixels of the
  cells `cs` and no other; `Drawn.mark` draws one more, `Drawn.foldl` a whole list.
* `Box.CutsOut b S`: the box `b` cuts out the points of `S`: bounds, mask and `contains` are theirs.
* `boxOf_eq`, `cutsOut_boxOf`: the box of cells with different points is made, and cuts them out. -/

namespace Bitplane.Region

variable {e : Extent} {c d : Cell} {cs ds : List Cell} {m : Raster} {S : Nat → Nat → Prop}
  {b : Box} {label px py x₀ y₀ : Nat}

/-! ## Extents -/

/-- **The extent is the least that holds the cells.** -/
structure Extent.Spans (e : Extent) (cs : List Cell) : Prop where
  /-- Every cell lies in it. -/
  holds : ∀ c ∈ cs, (e.minX ≤ c.x ∧ c.x ≤ e.maxX) ∧ e.minY ≤ c.y ∧ c.y ≤ e.maxY
  minX_eq : ∃ c ∈ cs, c.x = e.minX
  maxX_eq : ∃ c ∈ cs, c.x = e.maxX
  minY_eq : ∃ c ∈ cs, c.y = e.minY
  maxY_eq : ∃ c ∈ cs, c.y = e.maxY

theorem exists_concat_min {f : Cell → Nat} {n : Nat} (h : ∃ c ∈ cs, f c = n) (d : Cell) :
    ∃ c ∈ cs ++ [d], f c = min n (f d) := by
  obtain ⟨c, hc, rfl⟩ := h
  rcases Nat.le_total (f c) (f d) with hle | hle
  · exact ⟨c, by simp [hc], (Nat.min_eq_left hle).symm⟩
  · exact ⟨d, by simp, (Nat.min_eq_right hle).symm⟩

theorem exists_concat_max {f : Cell → Nat} {n : Nat} (h : ∃ c ∈ cs, f c = n) (d : Cell) :
    ∃ c ∈ cs ++ [d], f c = max n (f d) := by
  obtain ⟨c, hc, rfl⟩ := h
  rcases Nat.le_total (f c) (f d) with hle | hle
  · exact ⟨d, by simp, (Nat.max_eq_right hle).symm⟩
  · exact ⟨c, by simp [hc], (Nat.max_eq_left hle).symm⟩

namespace Extent

theorem spans_of (c : Cell) : (Extent.of c).Spans [c] where
  holds d hd := by
    rw [List.mem_singleton.mp hd]
    exact ⟨⟨Nat.le_refl _, Nat.le_refl _⟩, Nat.le_refl _, Nat.le_refl _⟩
  minX_eq := ⟨c, List.mem_singleton_self c, rfl⟩
  maxX_eq := ⟨c, List.mem_singleton_self c, rfl⟩
  minY_eq := ⟨c, List.mem_singleton_self c, rfl⟩
  maxY_eq := ⟨c, List.mem_singleton_self c, rfl⟩

theorem Spans.add (h : e.Spans cs) (d : Cell) : (e.add d).Spans (cs ++ [d]) where
  holds c hc := by
    unfold Extent.add
    rcases List.mem_append.mp hc with hc | hc
    · have := h.holds c hc
      simp only
      omega
    · rw [List.mem_singleton.mp hc]
      simp only
      omega
  minX_eq := exists_concat_min h.minX_eq d
  maxX_eq := exists_concat_max h.maxX_eq d
  minY_eq := exists_concat_min h.minY_eq d
  maxY_eq := exists_concat_max h.maxY_eq d

theorem Spans.foldl (h : e.Spans ds) : (cs.foldl Extent.add e).Spans (ds ++ cs) := by
  induction cs generalizing e ds with
  | nil => rwa [List.append_nil]
  | cons c cs ih =>
    rw [List.append_cons]
    exact ih (h.add c)

/-- **The extent of cells spans them.** -/
theorem spans_foldl (c : Cell) (cs : List Cell) :
    (cs.foldl Extent.add (Extent.of c)).Spans (c :: cs) := (spans_of c).foldl

theorem Spans.minX_le_maxX (h : e.Spans cs) : e.minX ≤ e.maxX := by
  obtain ⟨c, hc, hx⟩ := h.minX_eq
  exact hx ▸ (h.holds c hc).1.2

theorem Spans.minY_le_maxY (h : e.Spans cs) : e.minY ≤ e.maxY := by
  obtain ⟨c, hc, hy⟩ := h.minY_eq
  exact hy ▸ (h.holds c hc).2.2

/-- The blank mask for an extent. -/
def canvas (e : Extent) (hx : e.minX ≤ e.maxX) (hy : e.minY ≤ e.maxY) : Raster :=
  .blank (e.maxX + 1 - 8 * (e.minX / 8)) (e.maxY + 1 - e.minY) (by omega) (by omega)

/-- The box of an extent. -/
def box (e : Extent) (label pixels : Nat) (mask : Raster) : Box where
  label := label
  x := e.minX
  y := e.minY
  xByte := e.minX / 8
  width := e.maxX + 1 - e.minX
  height := e.maxY + 1 - e.minY
  pixelCount := pixels
  mask := mask

end Extent

/-! ## Masks -/

/-- A cell drawn into a mask whose first pixel lies at `(x₀, y₀)`. -/
def mark (x₀ y₀ : Nat) (m : Raster) (c : Cell) : Raster := m.put (c.x - x₀) (c.y - y₀) true

theorem width_foldl_mark : (cs.foldl (mark x₀ y₀) m).width = m.width := by
  induction cs generalizing m with
  | nil => rfl
  | cons c cs ih => exact ih

theorem height_foldl_mark : (cs.foldl (mark x₀ y₀) m).height = m.height := by
  induction cs generalizing m with
  | nil => rfl
  | cons c cs ih => exact ih

theorem template_foldl_mark : (cs.foldl (mark x₀ y₀) m).template = m.template := by
  induction cs generalizing m with
  | nil => rfl
  | cons c cs ih => exact ih

/-- The cell lies under a mask whose first pixel lies at `(x₀, y₀)`. -/
structure Cell.Under (c : Cell) (m : Raster) (x₀ y₀ : Nat) : Prop where
  left : x₀ ≤ c.x
  above : y₀ ≤ c.y
  inside : m.Inside (c.x - x₀) (c.y - y₀)

/-- **The mask has the pixels of the cells and no other.** -/
structure Drawn (m : Raster) (x₀ y₀ : Nat) (cs : List Cell) : Prop where
  paddingClear : m.PaddingClear
  isSet_iff : ∀ px py, m.isSet px py = true ↔ ∃ c ∈ cs, c.x = x₀ + px ∧ c.y = y₀ + py
  count_eq : m.count = cs.length

theorem drawn_template (m : Raster) (x₀ y₀ : Nat) : Drawn m.template x₀ y₀ [] where
  paddingClear := m.paddingClear_template
  isSet_iff px py := by simp [Raster.isSet_template]
  count_eq := m.count_template

theorem Drawn.mark (h : Drawn m x₀ y₀ cs) (hc : Cell.Under c m x₀ y₀)
    (hnew : ∀ d ∈ cs, ¬ (d.x = c.x ∧ d.y = c.y)) : Drawn (mark x₀ y₀ m c) x₀ y₀ (cs ++ [c]) := by
  have hl := hc.left
  have ha := hc.above
  have hclear : m.isSet (c.x - x₀) (c.y - y₀) = false := by
    rw [← Bool.not_eq_true, h.isSet_iff]
    rintro ⟨d, hd, hx, hy⟩
    exact hnew d hd ⟨by omega, by omega⟩
  refine ⟨h.paddingClear.put hc.inside true, fun px py => ?_, ?_⟩
  · unfold Region.mark
    rw [Raster.isSet_put hc.inside]
    split
    next heq =>
      simp only [true_iff]
      exact ⟨c, by simp, by omega, by omega⟩
    next hne =>
      rw [h.isSet_iff]
      constructor
      · rintro ⟨d, hd, hxy⟩
        exact ⟨d, by simp [hd], hxy⟩
      · rintro ⟨d, hd, hx, hy⟩
        rcases List.mem_append.mp hd with hd | hd
        · exact ⟨d, hd, hx, hy⟩
        · rw [List.mem_singleton.mp hd] at hx hy
          exact absurd ⟨by omega, by omega⟩ hne
  · unfold Region.mark
    rw [Raster.count_put hc.inside hclear, h.count_eq, List.length_append, List.length_singleton]

theorem Drawn.foldl (h : Drawn m x₀ y₀ ds) (hcs : ∀ c ∈ cs, Cell.Under c m x₀ y₀)
    (hdiff : (ds ++ cs).Pairwise fun c d => ¬ (c.x = d.x ∧ c.y = d.y)) :
    Drawn (cs.foldl (Region.mark x₀ y₀) m) x₀ y₀ (ds ++ cs) := by
  induction cs generalizing m ds with
  | nil => rwa [List.append_nil]
  | cons c cs ih =>
    have hnew : ∀ d ∈ ds, ¬ (d.x = c.x ∧ d.y = c.y) := fun d hd =>
      (List.pairwise_append.mp hdiff).2.2 d hd c List.mem_cons_self
    rw [List.append_cons] at hdiff ⊢
    refine ih (h.mark (hcs c List.mem_cons_self) hnew) (fun d hd => ?_) hdiff
    have := hcs d (List.mem_cons_of_mem c hd)
    exact ⟨this.left, this.above, this.inside⟩

/-! ## Boxes -/

/-- **The rectangle is the least that holds the points of `S`**: all lie in it, and every side meets
one. -/
structure Bounds (S : Nat → Nat → Prop) (x y width height : Nat) : Prop where
  holds : ∀ px py, S px py → (x ≤ px ∧ px < x + width) ∧ y ≤ py ∧ py < y + height
  left : ∃ py, S x py
  right : ∃ px py, S px py ∧ px + 1 = x + width
  top : ∃ px, S px y
  bottom : ∃ px py, S px py ∧ py + 1 = y + height

/-- **The box cuts out the points of `S`.** -/
structure Box.CutsOut (b : Box) (S : Nat → Nat → Prop) : Prop where
  /-- The rectangle is the least that holds them. -/
  bounds : Bounds S b.x b.y b.width b.height
  /-- The mask starts at the source byte that holds the leftmost column … -/
  xByte_eq : b.xByte = b.x / 8
  /-- … and ends with the rectangle. -/
  mask_width : 8 * b.xByte + b.mask.width = b.x + b.width
  mask_height : b.mask.height = b.height
  mask_paddingClear : b.mask.PaddingClear
  /-- It has as many set pixels as the box says. -/
  mask_count : b.mask.count = b.pixelCount
  /-- The points that the box contains are those of `S`. -/
  contains_iff : ∀ px py, b.contains px py = true ↔ S px py

theorem Extent.Spans.bounds (h : e.Spans cs) : Bounds (fun px py => ∃ c ∈ cs, c.x = px ∧ c.y = py)
    e.minX e.minY (e.maxX + 1 - e.minX) (e.maxY + 1 - e.minY) where
  holds := by
    rintro px py ⟨c, hc, rfl, rfl⟩
    have := h.holds c hc
    omega
  left := let ⟨c, hc, hx⟩ := h.minX_eq; ⟨c.y, c, hc, hx, rfl⟩
  right := by
    obtain ⟨c, hc, hx⟩ := h.maxX_eq
    exact ⟨c.x, c.y, ⟨c, hc, rfl, rfl⟩, by have := h.minX_le_maxX; omega⟩
  top := let ⟨c, hc, hy⟩ := h.minY_eq; ⟨c.x, c, hc, rfl, hy⟩
  bottom := by
    obtain ⟨c, hc, hy⟩ := h.maxY_eq
    exact ⟨c.x, c.y, ⟨c, hc, rfl, rfl⟩, by have := h.minY_le_maxY; omega⟩

theorem Extent.Spans.under (h : e.Spans cs) (hc : c ∈ cs) :
    Cell.Under c (e.canvas h.minX_le_maxX h.minY_le_maxY) (8 * (e.minX / 8)) e.minY := by
  have := h.holds c hc
  refine ⟨by omega, by omega, ?_, ?_⟩
  · show c.x - 8 * (e.minX / 8) < e.maxX + 1 - 8 * (e.minX / 8)
    omega
  · show c.y - e.minY < e.maxY + 1 - e.minY
    omega

theorem boxOf_eq (label : Nat) (c : Cell) (cs : List Cell)
    (he : cs.foldl Extent.add (Extent.of c) = e)
    (h : e.Spans (c :: cs)) : boxOf label c cs = .ok (e.box label (cs.length + 1)
      ((c :: cs).foldl (mark (8 * (e.minX / 8)) e.minY)
        (e.canvas h.minX_le_maxX h.minY_le_maxY))) := by
  have hx := h.minX_le_maxX
  have hy := h.minY_le_maxY
  have hblank : Raster.blank? (e.maxX + 1 - 8 * (e.minX / 8)) (e.maxY + 1 - e.minY) =
      .ok (e.canvas hx hy) := dif_pos ⟨by omega, by omega⟩
  unfold boxOf
  simp only [he, hblank]
  rfl

theorem cutsOut_box (h : e.Spans cs) (hm : Drawn m (8 * (e.minX / 8)) e.minY cs)
    (hw : m.width = e.maxX + 1 - 8 * (e.minX / 8)) (hh : m.height = e.maxY + 1 - e.minY) :
    (e.box label cs.length m).CutsOut fun px py => ∃ c ∈ cs, c.x = px ∧ c.y = py where
  bounds := h.bounds
  xByte_eq := rfl
  mask_width := by
    have := h.minX_le_maxX
    show 8 * (e.minX / 8) + m.width = e.minX + (e.maxX + 1 - e.minX)
    omega
  mask_height := hh
  mask_paddingClear := hm.paddingClear
  mask_count := hm.count_eq
  contains_iff px py := by
    show (if px < 8 * (e.minX / 8) ∨ py < e.minY then false
      else m.isSet (px - 8 * (e.minX / 8)) (py - e.minY)) = true ↔ _
    split
    next hout =>
      simp only [Bool.false_eq_true, false_iff]
      rintro ⟨c, hc, rfl, rfl⟩
      have := h.holds c hc
      omega
    next hin =>
      rw [hm.isSet_iff]
      refine exists_congr fun c => and_congr_right fun _ => ?_
      omega

/-- **The box of cells with different points cuts them out.** -/
theorem cutsOut_boxOf (hb : boxOf label c cs = .ok b)
    (hdiff : (c :: cs).Pairwise fun c d => ¬ (c.x = d.x ∧ c.y = d.y)) :
    b.label = label ∧ b.pixelCount = (c :: cs).length ∧
      b.CutsOut fun px py => ∃ d ∈ c :: cs, d.x = px ∧ d.y = py := by
  have h := Extent.spans_foldl c cs
  rw [boxOf_eq label c cs rfl h] at hb
  obtain rfl := Except.ok.inj hb
  have hblank := drawn_template (Extent.canvas _ h.minX_le_maxX h.minY_le_maxY)
    (8 * ((cs.foldl Extent.add (Extent.of c)).minX / 8)) (cs.foldl Extent.add (Extent.of c)).minY
  exact ⟨rfl, rfl, cutsOut_box h (hblank.foldl (fun d hd => h.under hd) hdiff) width_foldl_mark
    height_foldl_mark⟩

end Bitplane.Region
