import Bitplane.LabelGrid.Basic
import Bitplane.Rows.Lemmas

/-! # Rows and points of a label grid

* `get?_eq`: the label at a point is that of its place in its row.
* `row_update`: a row of a pass is `f` of the row.
* `mem_cells_iff`, `pairwise_cells`: the cells are the points of the grid with their labels, each
  once.
* `eq_of_row`, `eq_of_get?`: grids of one size are equal if their rows are, or their labels.
* `le_maxLabel_of_mem`, `maxLabel_mem`: the largest label bounds all labels, and is one of them. -/

namespace Bitplane.LabelGrid

variable {g a b : LabelGrid} {s : Strategy} {f : Nat → List Nat → List Nat} {x y : Nat}

@[simp] theorem fullRows_labels (g : LabelGrid) : Rows.fullRows g.width g.labels = g.height := by
  unfold Rows.fullRows
  rw [g.size_labels, Nat.mul_div_cancel_left _ g.width_pos]

theorem length_row (hy : y < g.height) : (g.row y).length = g.width :=
  Rows.length_rowOf (by rw [fullRows_labels]; exact hy)

theorem getElem?_row (g : LabelGrid) (y k : Nat) :
    (g.row y)[k]? = if k < g.width then g.labels[g.width * y + k]? else none :=
  Rows.getElem?_rowOf _ _ _ _

theorem mem_labels_of_mem_row {l : Nat} (h : l ∈ g.row y) : l ∈ g.labels := by
  obtain ⟨x, hx, rfl⟩ := List.getElem_of_mem h
  have hget := getElem?_row g y x
  rw [List.getElem?_eq_getElem hx] at hget
  split at hget
  next => exact Array.mem_of_getElem? hget.symm
  next => cases hget

theorem get?_eq (hx : x < g.width) (hy : y < g.height) : g.get? x y = (g.row y)[x]? := by
  unfold get?
  rw [getElem?_row, if_pos hx, if_pos ⟨hx, hy⟩, Nat.mul_comm]

theorem get?_of_not_inside (h : ¬ (x < g.width ∧ y < g.height)) : g.get? x y = none := if_neg h

theorem get?_isSome_iff : (g.get? x y).isSome ↔ x < g.width ∧ y < g.height := by
  by_cases h : x < g.width ∧ y < g.height
  · rw [get?_eq h.1 h.2, List.getElem?_eq_getElem (by rw [length_row h.2]; exact h.1)]
    simp [h]
  · rw [get?_of_not_inside h]
    simp [h]

@[simp] theorem width_update : (g.update s f).width = g.width := rfl

@[simp] theorem height_update : (g.update s f).height = g.height := rfl

theorem row_update (hf : Rows.KeepsLength g.width g.height f) (hy : y < g.height) :
    (g.update s f).row y = f y (g.row y) := by
  have h1 : Rows.KeepsLength g.width (Rows.fullRows g.width g.labels) f := by rwa [fullRows_labels]
  have h2 : y < Rows.fullRows g.width g.labels := by rwa [fullRows_labels]
  exact Rows.rowOf_update h1 h2

theorem eq_of_row (hw : a.width = b.width) (hh : a.height = b.height)
    (h : ∀ y < a.height, a.row y = b.row y) : a = b := by
  rw [eq_iff]
  refine ⟨hw, hh, Rows.eq_of_rowOf a.width_pos (fun y hy => ?_) fun j hj => ?_⟩
  · rw [fullRows_labels] at hy
    have := h y hy
    unfold row at this
    rwa [← hw] at this
  · rw [fullRows_labels, ← a.size_labels] at hj
    rw [Array.getElem?_eq_none hj, Array.getElem?_eq_none]
    rw [b.size_labels, ← hw, ← hh, ← a.size_labels]
    exact hj

theorem eq_of_get? (hw : a.width = b.width) (hh : a.height = b.height)
    (h : ∀ y < a.height, ∀ x < a.width, a.get? x y = b.get? x y) : a = b := by
  refine eq_of_row hw hh fun y hy => List.ext_getElem? fun x => ?_
  by_cases hx : x < a.width
  · rw [← get?_eq hx hy, ← get?_eq (hw ▸ hx) (hh ▸ hy), h y hy x hx]
  · rw [getElem?_row, getElem?_row, if_neg hx, if_neg (hw ▸ hx)]

/-- **The cells are the points of the grid with their labels.** -/
theorem mem_cells_iff {c : Cell} : c ∈ g.cells ↔ g.get? c.x c.y = some c.label := by
  unfold cells
  rw [List.mem_map]
  constructor
  · rintro ⟨⟨l, i⟩, hi, rfl⟩
    rw [List.mem_zipIdx_iff_getElem?] at hi
    have hlt : i < g.width * g.height := by
      rw [← g.size_labels, ← Array.length_toList]
      exact (List.getElem?_eq_some_iff.mp hi).1
    have hx : i % g.width < g.width := Nat.mod_lt i g.width_pos
    have hy : i / g.width < g.height := by
      rw [Nat.div_lt_iff_lt_mul g.width_pos, Nat.mul_comm]
      exact hlt
    show (if i % g.width < g.width ∧ i / g.width < g.height then
      g.labels[i / g.width * g.width + i % g.width]? else none) = some l
    rw [if_pos ⟨hx, hy⟩, Nat.mul_comm, Nat.div_add_mod, ← Array.getElem?_toList]
    exact hi
  · intro h
    have hin : c.x < g.width ∧ c.y < g.height := get?_isSome_iff.mp (by rw [h]; rfl)
    unfold get? at h
    rw [if_pos hin] at h
    refine ⟨(c.label, c.y * g.width + c.x), ?_, ?_⟩
    · rw [List.mem_zipIdx_iff_getElem?, Array.getElem?_toList]
      exact h
    · have h1 : (c.y * g.width + c.x) % g.width = c.x := by
        rw [Nat.mul_comm, Nat.mul_add_mod, Nat.mod_eq_of_lt hin.1]
      have h2 : (c.y * g.width + c.x) / g.width = c.y := by
        rw [Nat.mul_comm, Nat.mul_add_div g.width_pos, Nat.div_eq_of_lt hin.1, Nat.add_zero]
      simp only [h1, h2]

theorem inside_of_mem_cells {c : Cell} (h : c ∈ g.cells) : c.x < g.width ∧ c.y < g.height :=
  get?_isSome_iff.mp (by rw [mem_cells_iff.mp h]; rfl)

theorem map_label_cells (g : LabelGrid) : g.cells.map Cell.label = g.labels.toList := by
  unfold cells
  rw [List.map_map]
  exact List.zipIdx_map_fst _ _

@[simp] theorem length_cells (g : LabelGrid) : g.cells.length = g.width * g.height := by
  unfold cells
  rw [List.length_map, List.length_zipIdx, Array.length_toList, g.size_labels]

theorem length_filter_cells (g : LabelGrid) (l : Nat) :
    (g.cells.filter (·.label = l)).length = g.labels.count l := by
  rw [← Array.count_toList, ← map_label_cells, List.count_eq_countP, List.countP_map,
    List.countP_eq_length_filter]
  rfl

theorem pairwise_cells (g : LabelGrid) :
    g.cells.Pairwise fun c d => ¬ (c.x = d.x ∧ c.y = d.y) := by
  unfold cells
  rw [List.pairwise_map]
  have hidx : (g.labels.toList.zipIdx.map Prod.snd).Pairwise (· ≠ ·) := by
    rw [List.zipIdx_map_snd]
    exact List.nodup_range'
  rw [List.pairwise_map] at hidx
  refine hidx.imp ?_
  rintro ⟨l, i⟩ ⟨k, j⟩ hij ⟨hx, hy⟩
  simp only at hx hy hij
  exact hij (by rw [← Nat.div_add_mod i g.width, ← Nat.div_add_mod j g.width, hx, hy])

/-! ## The largest label -/

theorem le_foldl_max (l : List Nat) : ∀ (n k : Nat), k = n ∨ k ∈ l → k ≤ l.foldl max n := by
  induction l with
  | nil =>
    rintro n k (rfl | h)
    · exact Nat.le_refl _
    · cases h
  | cons a l ih =>
    rintro n k (rfl | h)
    · exact Nat.le_trans (Nat.le_max_left _ _) (ih _ _ (.inl rfl))
    · rcases List.mem_cons.mp h with rfl | h
      · exact Nat.le_trans (Nat.le_max_right _ _) (ih _ _ (.inl rfl))
      · exact ih _ _ (.inr h)

theorem foldl_max_eq_or_mem (l : List Nat) : ∀ n, l.foldl max n = n ∨ l.foldl max n ∈ l := by
  induction l with
  | nil => exact fun n => .inl rfl
  | cons a l ih =>
    intro n
    rw [List.foldl_cons, List.mem_cons]
    rcases ih (max n a) with h | h
    · rw [h]
      rcases Nat.le_total n a with hna | hna
      · exact .inr (.inl (Nat.max_eq_right hna))
      · exact .inl (Nat.max_eq_left hna)
    · exact .inr (.inr h)

theorem le_maxLabel_of_mem {l : Nat} (h : l ∈ g.labels) : l ≤ g.maxLabel := by
  unfold maxLabel
  rw [← Array.foldl_toList]
  exact le_foldl_max _ _ _ (.inr (Array.mem_toList_iff.mpr h))

/-- **The largest label is one of the grid**, unless all is background. -/
theorem maxLabel_mem (h : g.maxLabel ≠ 0) : g.maxLabel ∈ g.labels := by
  unfold maxLabel at h ⊢
  rw [← Array.foldl_toList] at h ⊢
  exact Array.mem_toList_iff.mp ((foldl_max_eq_or_mem _ 0).resolve_left h)

end Bitplane.LabelGrid
