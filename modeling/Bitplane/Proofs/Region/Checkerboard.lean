import Bitplane.Proofs.Region.BridgedCorners
import Bitplane.Source
import Mathlib.Algebra.BigOperators.Group.Finset.Piecewise
import Mathlib.Algebra.BigOperators.Group.Finset.Sigma
import Mathlib.Algebra.Ring.Parity

/-! # The components of a checkerboard

The cells of a board lie in rows and columns, those at the right and the lower border clipped. A
pixel is set if the numbers of its cell's column and row have an even sum. A step by a side never
leads from a set cell to another one, so that by sides every set cell is a component. A step by a
corner does, to the cells that lie diagonally; if there are two rows and two columns of cells it
joins all set cells, and if there is only one row or column no cell lies diagonally to another.

* `cellsAlong`, `lt_cellsAlong_iff`: how many cells lie along a side.
* `evenCells`, `card_evenCells`: the cells with an even sum are every other one of all.
* `IsCheckerboard`: the pixels of a board; `exists_checkerboard`: the test pattern is one.
* `joined_iff_cellOf_eq`: where a path joins just the pixels of a cell; `joined_of_two_rows`: where
  it joins all pixels.
* `checkerboard_components`: so the number of components by sides, and by sides and corners. -/

namespace Bitplane

open Region

variable {r : Raster} {c : Connectivity} {p q : Point} {cell side width height i j k n x y : Nat}

/-! ## Cells -/

/-- The number of cells along a side, the last one clipped. -/
def cellsAlong (side cell : Nat) : Nat := (side + cell - 1) / cell

/-- The column and row of a point's cell. -/
def cellOf (cell : Nat) (p : Point) : Nat × Nat := (p.x / cell, p.y / cell)

/-- The first point of a cell. -/
def cornerOf (cell : Nat) (k : Nat × Nat) : Point := ⟨k.1 * cell, k.2 * cell⟩

/-- The cells of `nx` columns and `ny` rows with an even sum. -/
def evenCells (nx ny : Nat) : Finset (Nat × Nat) :=
  (Finset.range nx ×ˢ Finset.range ny).filter fun k => (k.1 + k.2) % 2 = 0

theorem lt_cellsAlong_iff (hc : 0 < cell) : i < cellsAlong side cell ↔ i * cell < side := by
  unfold cellsAlong
  rw [← Nat.succ_le_iff, Nat.le_div_iff_mul_le hc, Nat.succ_mul]
  omega

theorem cellsAlong_pos (hc : 0 < cell) (hs : 0 < side) : 0 < cellsAlong side cell :=
  (lt_cellsAlong_iff hc).mpr (by rwa [Nat.zero_mul])

theorem div_lt_cellsAlong (hc : 0 < cell) (hx : x < side) : x / cell < cellsAlong side cell :=
  (lt_cellsAlong_iff hc).mpr (Nat.lt_of_le_of_lt (Nat.div_mul_le_self x cell) hx)

theorem mem_evenCells {nx ny : Nat} {k : Nat × Nat} :
    k ∈ evenCells nx ny ↔ (k.1 < nx ∧ k.2 < ny) ∧ (k.1 + k.2) % 2 = 0 := by
  unfold evenCells
  rw [Finset.mem_filter, Finset.mem_product, Finset.mem_range, Finset.mem_range]

theorem div_le_div_succ (hc : 0 < cell) (h : x ≤ y + 1) : x / cell ≤ y / cell + 1 :=
  calc x / cell ≤ (y + cell) / cell := Nat.div_le_div_right (by omega)
    _ = y / cell + 1 := Nat.add_div_right y hc

/-- The last column or row in a line of cells. -/
theorem last_div (hc : 0 < cell) (i : Nat) : ((i + 1) * cell - 1) / cell = i := by
  have hmul : (i + 1) * cell = i * cell + cell := Nat.succ_mul i cell
  exact Nat.div_eq_of_lt_le (by omega) (by omega)

theorem cellOf_cornerOf (hc : 0 < cell) (k : Nat × Nat) : cellOf cell (cornerOf cell k) = k := by
  unfold cellOf cornerOf
  rw [Nat.mul_div_cancel _ hc, Nat.mul_div_cancel _ hc]

/-- In a row every other cell has an even sum, from the first or from the second on. -/
theorem card_evenRow (nx j : Nat) :
    ((Finset.range nx).filter fun i => (i + j) % 2 = 0).card = (nx + 1 - j % 2) / 2 := by
  induction nx with
  | zero => simp; omega
  | succ nx ih =>
    rw [Finset.range_add_one, Finset.filter_insert]
    split
    · rw [Finset.card_insert_of_notMem (by simp), ih]; omega
    · rw [ih]; omega

theorem sum_evenRows (nx ny : Nat) :
    ∑ j ∈ Finset.range ny, (nx + 1 - j % 2) / 2 = (nx * ny + 1) / 2 := by
  induction ny with
  | zero => simp
  | succ ny ih =>
    rw [Finset.sum_range_succ, ih, Nat.mul_succ]
    obtain ⟨m, rfl | rfl⟩ := Nat.even_or_odd' nx
    · rw [Nat.mul_assoc]
      generalize m * ny = t
      omega
    · rw [Nat.add_mul, Nat.mul_assoc]
      generalize m * ny = t
      omega

theorem card_evenCells (nx ny : Nat) : (evenCells nx ny).card = (nx * ny + 1) / 2 := by
  unfold evenCells
  rw [Finset.card_filter, Finset.sum_product_right, ← sum_evenRows]
  refine Finset.sum_congr rfl fun j _ => ?_
  rw [← card_evenRow, Finset.card_filter]

namespace Raster

open Point (Adjacent)

/-! ## Paths along a row and a column -/

theorem joined_along_row (h : ∀ x, j ≤ x → x ≤ k → r.isSet x y = true) (hle : j ≤ k) :
    r.Joined c ⟨j, y⟩ ⟨k, y⟩ := by
  induction k, hle using Nat.le_induction with
  | base => exact .here (h j le_rfl le_rfl)
  | succ k hle ih =>
    exact (ih fun x hj hk => h x hj (by omega)).step (Point.adjacent_right c k y)
      (h (k + 1) (by omega) le_rfl)

theorem adjacent_below (c : Connectivity) (x y : Nat) : Adjacent c ⟨x, y⟩ ⟨x, y + 1⟩ := by
  cases c with
  | four => simp [Point.adjacent_four_iff]
  | eight =>
    simp only [Point.adjacent_eight_iff]
    omega

theorem joined_along_column (h : ∀ y, j ≤ y → y ≤ k → r.isSet x y = true) (hle : j ≤ k) :
    r.Joined c ⟨x, j⟩ ⟨x, k⟩ := by
  induction k, hle using Nat.le_induction with
  | base => exact .here (h j le_rfl le_rfl)
  | succ k hle ih =>
    exact (ih fun y hj hk => h y hj (by omega)).step (adjacent_below c x k)
      (h (k + 1) (by omega) le_rfl)

/-! ## Boards -/

/-- **The raster is a board of squares** with `cell` pixels to a side, the first one set. -/
structure IsCheckerboard (r : Raster) (cell : Nat) : Prop where
  cell_pos : 0 < cell
  isSet_iff : ∀ x y, r.isSet x y = true ↔ r.Inside x y ∧ (x / cell + y / cell) % 2 = 0

/-- The cells of a raster with an even sum. -/
def boardCells (r : Raster) (cell : Nat) : Finset (Nat × Nat) :=
  evenCells (cellsAlong r.width cell) (cellsAlong r.height cell)

namespace IsCheckerboard

variable (h : r.IsCheckerboard cell)
include h

theorem cellOf_mem (hp : r.isSet p.x p.y = true) : cellOf cell p ∈ r.boardCells cell := by
  obtain ⟨hin, heven⟩ := (h.isSet_iff p.x p.y).mp hp
  exact mem_evenCells.mpr
    ⟨⟨div_lt_cellsAlong h.cell_pos hin.1, div_lt_cellsAlong h.cell_pos hin.2⟩, heven⟩

theorem isSet_of_cellOf_mem (hin : r.Inside p.x p.y) (hp : cellOf cell p ∈ r.boardCells cell) :
    r.isSet p.x p.y = true :=
  (h.isSet_iff p.x p.y).mpr ⟨hin, (mem_evenCells.mp hp).2⟩

theorem isSet_cornerOf {m : Nat × Nat} (hm : m ∈ r.boardCells cell) :
    r.isSet (cornerOf cell m).x (cornerOf cell m).y = true := by
  obtain ⟨⟨hx, hy⟩, -⟩ := mem_evenCells.mp hm
  refine h.isSet_of_cellOf_mem ⟨?_, ?_⟩ ((cellOf_cornerOf h.cell_pos m).symm ▸ hm)
  · exact (lt_cellsAlong_iff h.cell_pos).mp hx
  · exact (lt_cellsAlong_iff h.cell_pos).mp hy

/-- **A path leads from the first pixel of a cell to every other**, along the first row of the cell
and then down. -/
theorem joined_cornerOf (c : Connectivity) (hp : r.isSet p.x p.y = true) :
    r.Joined c (cornerOf cell (cellOf cell p)) p := by
  obtain ⟨hin, heven⟩ := (h.isSet_iff p.x p.y).mp hp
  have hcell : ∀ {x y}, x / cell = p.x / cell → y / cell = p.y / cell → x ≤ p.x → y ≤ p.y →
      r.isSet x y = true := fun hx hy hxp hyp =>
    (h.isSet_iff _ _).mpr ⟨⟨hxp.trans_lt hin.1, hyp.trans_lt hin.2⟩, by rwa [hx, hy]⟩
  have hdiv : ∀ {m n : Nat}, n / cell * cell ≤ m → m ≤ n → m / cell = n / cell := fun hm hn =>
    Nat.le_antisymm (Nat.div_le_div_right hn) ((Nat.le_div_iff_mul_le h.cell_pos).mpr hm)
  have hrow : r.Joined c ⟨p.x / cell * cell, p.y / cell * cell⟩ ⟨p.x, p.y / cell * cell⟩ :=
    joined_along_row (fun x hj hk => hcell (hdiv hj hk) (Nat.mul_div_cancel _ h.cell_pos) hk
      (Nat.div_mul_le_self _ _)) (Nat.div_mul_le_self _ _)
  have hcolumn : r.Joined c ⟨p.x, p.y / cell * cell⟩ ⟨p.x, p.y⟩ :=
    joined_along_column (fun y hj hk => hcell rfl (hdiv hj hk) le_rfl hk) (Nat.div_mul_le_self _ _)
  exact hrow.trans hcolumn

theorem joined_of_cellOf_eq (hp : r.isSet p.x p.y = true) (hq : r.isSet q.x q.y = true)
    (hpq : cellOf cell p = cellOf cell q) : r.Joined c p q := by
  have hcorner := h.joined_cornerOf c hp
  rw [hpq] at hcorner
  exact hcorner.symm.trans (h.joined_cornerOf c hq)

/-! ## Separate cells -/

/-- **No step leads from a set cell to another**, if steps go by sides only or all cells lie in a
line. -/
theorem cellOf_eq_of_adjacent (hone : c = .four ∨ cellsAlong r.width cell = 1 ∨
    cellsAlong r.height cell = 1) (hpq : Adjacent c p q) (hp : r.isSet p.x p.y = true)
    (hq : r.isSet q.x q.y = true) : cellOf cell p = cellOf cell q := by
  obtain ⟨⟨hpx, hpy⟩, hpe⟩ := mem_evenCells.mp (h.cellOf_mem hp)
  obtain ⟨⟨hqx, hqy⟩, hqe⟩ := mem_evenCells.mp (h.cellOf_mem hq)
  simp only [cellOf] at hpx hpy hpe hqx hqy hqe
  have hnear : ∀ {x y}, x ≤ y + 1 → x / cell ≤ y / cell + 1 := div_le_div_succ h.cell_pos
  -- the sums of the two cells are both even, so that they differ in no coordinate or in both
  have hboth : p.x / cell = q.x / cell ∨ p.y / cell = q.y / cell := by
    rcases hone with rfl | hone | hone
    · rcases Point.adjacent_four_iff.mp hpq with ⟨hy, -⟩ | ⟨hx, -⟩
      · exact .inr (by rw [hy])
      · exact .inl (by rw [hx])
    · exact .inl ((Nat.lt_one_iff.mp (hone ▸ hpx)).trans (Nat.lt_one_iff.mp (hone ▸ hqx)).symm)
    · exact .inr ((Nat.lt_one_iff.mp (hone ▸ hpy)).trans (Nat.lt_one_iff.mp (hone ▸ hqy)).symm)
  obtain ⟨-, hx, hx', hy, hy'⟩ : (p.x ≠ q.x ∨ p.y ≠ q.y) ∧ p.x ≤ q.x + 1 ∧ q.x ≤ p.x + 1 ∧
      p.y ≤ q.y + 1 ∧ q.y ≤ p.y + 1 := by
    cases c with
    | four => exact Point.adjacent_eight_iff.mp hpq.eight_of_four
    | eight => exact Point.adjacent_eight_iff.mp hpq
  have := hnear hx
  have := hnear hx'
  have := hnear hy
  have := hnear hy'
  simp only [cellOf, Prod.mk.injEq]
  omega

/-- **The components are the set cells**, if steps go by sides only or all cells lie in a line. -/
theorem joined_iff_cellOf_eq (hone : c = .four ∨ cellsAlong r.width cell = 1 ∨
    cellsAlong r.height cell = 1) (hp : r.isSet p.x p.y = true) (hq : r.isSet q.x q.y = true) :
    r.Joined c p q ↔ cellOf cell p = cellOf cell q := by
  refine ⟨fun hj => ?_, h.joined_of_cellOf_eq hp hq⟩
  induction hj with
  | here _ => rfl
  | step hj hs hset ih =>
    exact (ih hj.isSet_right).trans (h.cellOf_eq_of_adjacent hone hs hj.isSet_right hset)

theorem count_eq_of_separate {labels : Array Nat} {count : Nat}
    (hone : c = .four ∨ cellsAlong r.width cell = 1 ∨ cellsAlong r.height cell = 1)
    (hn : r.NumbersComponents c labels count) :
    count = (cellsAlong r.width cell * cellsAlong r.height cell + 1) / 2 := by
  rw [← card_evenCells]
  refine hn.count_eq_card (fun p hp => h.cellOf_mem hp) (fun m hm => ?_)
    fun p q hp hq => h.joined_iff_cellOf_eq hone hp hq
  exact ⟨cornerOf cell m, h.isSet_cornerOf hm, cellOf_cornerOf h.cell_pos m⟩

/-! ## Cells that touch at corners -/

theorem joined_cornerOf_of_adjacent {k m : Nat × Nat} (hk : k ∈ r.boardCells cell)
    (hm : m ∈ r.boardCells cell) (hp : cellOf cell p = k) (hq : cellOf cell q = m)
    (hpin : r.Inside p.x p.y) (hqin : r.Inside q.x q.y) (hpq : Adjacent c p q) :
    r.Joined c (cornerOf cell k) (cornerOf cell m) := by
  subst hp hq
  have hq := h.isSet_of_cellOf_mem hqin hm
  have hp := h.isSet_of_cellOf_mem hpin hk
  exact ((h.joined_cornerOf c hp).step hpq hq).trans (h.joined_cornerOf c hq).symm

/-- A cell is joined to the one to the right below: its last pixel is adjacent to the first of the
other. -/
theorem joined_cornerOf_succ (hk : (i, j) ∈ r.boardCells cell)
    (hm : (i + 1, j + 1) ∈ r.boardCells cell) :
    r.Joined .eight (cornerOf cell (i, j)) (cornerOf cell (i + 1, j + 1)) := by
  obtain ⟨⟨hi, hj⟩, -⟩ := mem_evenCells.mp hm
  have hx := (lt_cellsAlong_iff h.cell_pos).mp hi
  have hy := (lt_cellsAlong_iff h.cell_pos).mp hj
  have hxpos : 0 < (i + 1) * cell := Nat.mul_pos (Nat.succ_pos i) h.cell_pos
  have hypos : 0 < (j + 1) * cell := Nat.mul_pos (Nat.succ_pos j) h.cell_pos
  refine h.joined_cornerOf_of_adjacent (p := ⟨(i + 1) * cell - 1, (j + 1) * cell - 1⟩) hk hm
    (Prod.ext (last_div h.cell_pos i) (last_div h.cell_pos j)) (cellOf_cornerOf h.cell_pos _)
    ⟨(Nat.sub_le _ 1).trans_lt hx, (Nat.sub_le _ 1).trans_lt hy⟩ ⟨hx, hy⟩ ?_
  simp only [Point.adjacent_eight_iff, cornerOf]
  omega

/-- A cell is joined to the one to the left below: the last pixel of its first column is adjacent to
the first pixel of the last column of the other. -/
theorem joined_cornerOf_pred (hk : (i + 1, j) ∈ r.boardCells cell)
    (hm : (i, j + 1) ∈ r.boardCells cell) :
    r.Joined .eight (cornerOf cell (i + 1, j)) (cornerOf cell (i, j + 1)) := by
  obtain ⟨⟨hi, -⟩, -⟩ := mem_evenCells.mp hk
  obtain ⟨⟨-, hj⟩, -⟩ := mem_evenCells.mp hm
  have hx := (lt_cellsAlong_iff h.cell_pos).mp hi
  have hy := (lt_cellsAlong_iff h.cell_pos).mp hj
  have hxpos : 0 < (i + 1) * cell := Nat.mul_pos (Nat.succ_pos i) h.cell_pos
  have hypos : 0 < (j + 1) * cell := Nat.mul_pos (Nat.succ_pos j) h.cell_pos
  refine h.joined_cornerOf_of_adjacent (p := ⟨(i + 1) * cell, (j + 1) * cell - 1⟩)
    (q := ⟨(i + 1) * cell - 1, (j + 1) * cell⟩) hk hm
    (Prod.ext (Nat.mul_div_cancel _ h.cell_pos) (last_div h.cell_pos j))
    (Prod.ext (last_div h.cell_pos i) (Nat.mul_div_cancel _ h.cell_pos))
    ⟨hx, (Nat.sub_le _ 1).trans_lt hy⟩ ⟨(Nat.sub_le _ 1).trans_lt hx, hy⟩ ?_
  simp only [Point.adjacent_eight_iff]
  omega

section

variable (hx : 2 ≤ cellsAlong r.width cell) (hy : 2 ≤ cellsAlong r.height cell)
include hx hy

/-- **Every set cell is joined to the first**: go up diagonally, and from a border two cells along
it by way of the cell between. -/
theorem joined_cornerOf_zero : ∀ i j : Nat, (i, j) ∈ r.boardCells cell →
    r.Joined .eight (cornerOf cell (0, 0)) (cornerOf cell (i, j))
  | 0, 0, hm => .here (h.isSet_cornerOf hm)
  | i + 1, j + 1, hm => by
    have hprev : (i, j) ∈ r.boardCells cell := by
      have := mem_evenCells.mp hm
      exact mem_evenCells.mpr (by simp only at this ⊢; omega)
    exact (joined_cornerOf_zero i j hprev).trans (h.joined_cornerOf_succ hprev hm)
  | 0, j + 2, hm => by
    have hmid : (1, j + 1) ∈ r.boardCells cell ∧ (0, j) ∈ r.boardCells cell := by
      have := mem_evenCells.mp hm
      exact ⟨mem_evenCells.mpr (by simp only at this ⊢; omega),
        mem_evenCells.mpr (by simp only at this ⊢; omega)⟩
    exact ((joined_cornerOf_zero 0 j hmid.2).trans (h.joined_cornerOf_succ hmid.2 hmid.1)).trans
      (h.joined_cornerOf_pred hmid.1 hm)
  | i + 2, 0, hm => by
    have hmid : (i + 1, 1) ∈ r.boardCells cell ∧ (i, 0) ∈ r.boardCells cell := by
      have := mem_evenCells.mp hm
      exact ⟨mem_evenCells.mpr (by simp only at this ⊢; omega),
        mem_evenCells.mpr (by simp only at this ⊢; omega)⟩
    exact ((joined_cornerOf_zero i 0 hmid.2).trans (h.joined_cornerOf_succ hmid.2 hmid.1)).trans
      (h.joined_cornerOf_pred hm hmid.1).symm
  | 0, 1, hm => absurd (mem_evenCells.mp hm).2 (by decide)
  | 1, 0, hm => absurd (mem_evenCells.mp hm).2 (by decide)
termination_by i j => i + j

theorem joined_of_two_rows (hp : r.isSet p.x p.y = true) (hq : r.isSet q.x q.y = true) :
    r.Joined .eight p q := by
  have hzero : ∀ s : Point, r.isSet s.x s.y = true → r.Joined .eight (cornerOf cell (0, 0)) s :=
    fun s hs => (h.joined_cornerOf_zero hx hy _ _ (h.cellOf_mem hs)).trans
      (h.joined_cornerOf .eight hs)
  exact (hzero p hp).symm.trans (hzero q hq)

end

theorem count_eq_one_of_two_rows {labels : Array Nat} {count : Nat}
    (hx : 2 ≤ cellsAlong r.width cell) (hy : 2 ≤ cellsAlong r.height cell)
    (hn : r.NumbersComponents .eight labels count) : count = 1 := by
  have hzero : (0, 0) ∈ r.boardCells cell := mem_evenCells.mpr ⟨⟨by omega, by omega⟩, rfl⟩
  exact hn.count_eq_one (h.isSet_cornerOf hzero) fun p q hp hq => h.joined_of_two_rows hx hy hp hq

/-- **By sides and corners** there is one component, unless the cells lie in a line. -/
theorem count_eq_of_corners {labels : Array Nat} {count : Nat}
    (hn : r.NumbersComponents .eight labels count) :
    count = if 2 ≤ cellsAlong r.width cell ∧ 2 ≤ cellsAlong r.height cell then 1
      else (max (cellsAlong r.width cell) (cellsAlong r.height cell) + 1) / 2 := by
  have hx := cellsAlong_pos h.cell_pos r.width_pos
  have hy := cellsAlong_pos h.cell_pos r.height_pos
  split
  next htwo => exact h.count_eq_one_of_two_rows htwo.1 htwo.2 hn
  next htwo =>
    have hone : cellsAlong r.width cell = 1 ∨ cellsAlong r.height cell = 1 := by omega
    rw [h.count_eq_of_separate (.inr hone) hn]
    rcases hone with hone | hone
    · rw [hone, Nat.max_eq_right hy, Nat.one_mul]
    · rw [hone, Nat.max_eq_left hx, Nat.mul_one]

end IsCheckerboard

/-- **The test pattern is a board.** -/
theorem exists_checkerboard (hw : 0 < width) (hh : 0 < height) (hc : 0 < cell) :
    ∃ r, Pattern.checkerboard width height cell = .ok r ∧ r.width = width ∧ r.height = height ∧
      r.IsCheckerboard cell := by
  refine ⟨(blank width height hw hh).tabulate fun x y => (x / cell + y / cell) % 2 = 0,
    ?_, rfl, rfl, hc, fun x y => ?_⟩
  · unfold Pattern.checkerboard blank?
    rw [if_neg hc.ne', dif_pos ⟨hw, hh⟩]
    rfl
  · rw [isSet_tabulate, Bool.and_eq_true, decide_eq_true_iff, decide_eq_true_iff]
    exact Iff.rfl

/-- **Counting components answers the number that every numbering has**, unless there are too many
runs. -/
theorem countComponents_eq_ok_iff (hw : 2 ≤ r.width) (hh : 2 ≤ r.height)
    (hk : ∀ {labels count}, r.NumbersComponents c labels count → count = k) :
    r.countComponents c = .ok n ↔ r.runCount < runLimit ∧ n = k := by
  by_cases hruns : r.runCount < runLimit
  · obtain ⟨l, hl, -, -, hn⟩ := label_numbers_components (o := .of c) hw hh hruns rfl
    have hcount : r.countComponents c = .ok l.count := countComponents_of_label (o := .of c) rfl hl
    rw [hcount, Except.ok.injEq, hk hn, and_iff_right hruns, eq_comm]
  · have herror := label_error_of_runs (o := .of c) hw hh rfl (not_lt.mp hruns)
    unfold countComponents
    rw [herror]
    exact iff_of_false nofun fun h => hruns h.1

theorem runCount_le (r : Raster) : r.runCount ≤ r.width * r.height := by
  have hlength : r.points.length = r.width * r.height := by
    unfold points
    rw [List.length_map, List.length_range]
  exact hlength ▸ List.countP_le_length

/-- **The components of a checkerboard.** A board with sides of two or more, whose sums of columns
and rows fit in a word, can be made from cells of any size. Unless there are too many runs, its
components by sides are the set cells, which are every other one of all cells; by sides and corners
there is one component if there are two rows and two columns of cells, and else every other cell of
the line is one. -/
theorem checkerboard_components (hw : 2 ≤ width) (hh : 2 ≤ height)
    (hsum : width + height ≤ wordLimit)
    (hc : 1 ≤ cell) :
    let nx := cellsAlong width cell
    let ny := cellsAlong height cell
    (∀ x < width, ∀ y < height, x / cell + y / cell < wordLimit) ∧
    ∃ r, Pattern.checkerboard width height cell = .ok r ∧ r.width = width ∧ r.height = height ∧
      r.IsCheckerboard cell ∧
      (∀ p q : Point, r.isSet p.x p.y = true → r.isSet q.x q.y = true →
        (r.Joined .four p q ↔ cellOf cell p = cellOf cell q)) ∧
      (∀ n, r.countComponents .four = .ok n ↔ r.runCount < runLimit ∧ n = (nx * ny + 1) / 2) ∧
      ∀ n, r.countComponents .eight = .ok n ↔ r.runCount < runLimit ∧
        n = if 2 ≤ nx ∧ 2 ≤ ny then 1 else (max nx ny + 1) / 2 := by
  obtain ⟨r, hr, rfl, rfl, h⟩ := exists_checkerboard (by omega : 0 < width) (by omega : 0 < height) hc
  refine ⟨fun x hx y hy => ?_, r, hr, rfl, rfl, h, fun p q => h.joined_iff_cellOf_eq (.inl rfl),
    fun n => countComponents_eq_ok_iff hw hh (h.count_eq_of_separate (.inl rfl)),
    fun n => countComponents_eq_ok_iff hw hh h.count_eq_of_corners⟩
  have := Nat.div_le_self x cell
  have := Nat.div_le_self y cell
  omega

/-- Six cells, clipped at the right and below, and three cells in a line. -/
theorem checkerboard_components_clipped :
    2 ≤ 5 ∧ 2 ≤ 3 ∧ 5 + 3 ≤ wordLimit ∧
    (∃ r, Pattern.checkerboard 5 3 2 = .ok r ∧ r.countComponents .four = .ok 3 ∧
      r.countComponents .eight = .ok 1) ∧
    ∃ r, Pattern.checkerboard 2 5 2 = .ok r ∧ r.countComponents .four = .ok 2 ∧
      r.countComponents .eight = .ok 2 := by
  have hruns : ∀ {r : Raster}, r.width * r.height < runLimit →
      r.runCount < runLimit := fun {r} hlt =>
    r.runCount_le.trans_lt hlt
  obtain ⟨-, r, hr, hw, hh, -, -, hfour, hcorners⟩ := checkerboard_components (by decide : 2 ≤ 5)
    (by decide : 2 ≤ 3) (by decide) (by decide : 1 ≤ 2)
  obtain ⟨-, s, hs, hw', hh', -, -, hfour', hcorners'⟩ :=
    checkerboard_components (by decide : 2 ≤ 2)
    (by decide : 2 ≤ 5) (by decide) (by decide : 1 ≤ 2)
  refine ⟨by decide, by decide, by decide, ⟨r, hr, (hfour 3).mpr ⟨hruns ?_, rfl⟩,
    (hcorners 1).mpr ⟨hruns ?_, rfl⟩⟩, s, hs, (hfour' 2).mpr ⟨hruns ?_, rfl⟩,
    (hcorners' 2).mpr ⟨hruns ?_, rfl⟩⟩
  · rw [hw, hh]; decide
  · rw [hw, hh]; decide
  · rw [hw', hh']; decide
  · rw [hw', hh']; decide

end Raster

end Bitplane
