import Bitplane.Proofs.Region.CellBoxes

/-! # The boxes of a grid

* `labelCells cells l`: the cells of one label; `labelGroups_eq`: these are what `boxes` cuts out.
* `boxesFrom_ok`, `mem_boxesFrom_iff`, `pairwise_boxesFrom`: a row of groups has boxes, one for each
  group that is not empty, in the order of labels.
* `boxes_ok`: a grid without a label above the count has boxes, those of its labels' cells.
* `GridBoxes g bs`: the boxes are those of the labels in use, in their order, and each cuts out the
  pixels of its label; `exists_gridBoxes`: `boxes` answers such boxes. -/

namespace Bitplane.Region

variable {g : LabelGrid} {b : Box} {bs : List Box} {cells : List Cell} {groups : List (List Cell)}
  {c : Cell} {cs : List Cell} {count i l label : Nat}

/-! ## Cells by label -/

/-- The cells of one label. -/
def labelCells (cells : List Cell) (l : Nat) : List Cell := cells.filter (·.label = l)

theorem mem_labelCells_iff : c ∈ labelCells cells l ↔ c ∈ cells ∧ c.label = l := by
  unfold labelCells
  rw [List.mem_filter, decide_eq_true_iff]

/-- The cells of the labels `1, …, count`, label by label. -/
def labelGroups (count : Nat) (cells : List Cell) : List (List Cell) :=
  (List.range count).map fun i => labelCells cells (i + 1)

@[simp] theorem length_labelGroups (count : Nat) (cells : List Cell) :
    (labelGroups count cells).length = count := by
  simp [labelGroups]

theorem getElem?_labelGroups (hi : i < count) :
    (labelGroups count cells)[i]? = some (labelCells cells (i + 1)) := by
  simp [labelGroups, hi]

theorem getElem?_cellsByLabel (count : Nat) (cells : List Cell) (l : Nat) :
    (cellsByLabel count cells)[l]? = if l ≤ count then some (labelCells cells l) else none := by
  unfold cellsByLabel labelCells
  induction cells with
  | nil =>
    rw [List.foldr_nil, Array.getElem?_replicate]
    simp only [Nat.lt_succ_iff, List.filter_nil]
  | cons c cs ih =>
    rw [List.foldr_cons, Array.getElem?_modify, ih, List.filter_cons]
    by_cases hl : l ≤ count
    · by_cases h : c.label = l <;> simp [h, hl]
    · simp [hl]

theorem labelGroups_eq (count : Nat) (cells : List Cell) :
    (cellsByLabel count cells).toList.drop 1 = labelGroups count cells := by
  apply List.ext_getElem?
  intro i
  rw [List.getElem?_drop, Array.getElem?_toList, getElem?_cellsByLabel, Nat.add_comm 1 i]
  by_cases hi : i < count
  · rw [getElem?_labelGroups hi, if_pos (by omega)]
  · rw [if_neg (by omega), List.getElem?_eq_none (by rw [length_labelGroups]; omega)]

/-! ## Boxes of groups -/

theorem boxOf_ok (label : Nat) (c : Cell) (cs : List Cell) : ∃ b, boxOf label c cs = .ok b :=
  ⟨_, boxOf_eq label c cs rfl (Extent.spans_foldl c cs)⟩

theorem label_boxOf (hb : boxOf label c cs = .ok b) : b.label = label := by
  rw [boxOf_eq label c cs rfl (Extent.spans_foldl c cs)] at hb
  rw [← Except.ok.inj hb]
  rfl

theorem boxesFrom_ok : ∀ (groups : List (List Cell)) (label : Nat),
    ∃ bs, boxesFrom label groups = .ok bs
  | [], _ => ⟨[], rfl⟩
  | [] :: rest, label => boxesFrom_ok rest (label + 1)
  | (c :: cs) :: rest, label => by
    obtain ⟨b, hb⟩ := boxOf_ok label c cs
    obtain ⟨bs, hbs⟩ := boxesFrom_ok rest (label + 1)
    exact ⟨b :: bs, by rw [boxesFrom, hb, hbs]; rfl⟩

theorem boxesFrom_cons_cases {rest : List (List Cell)}
    (h : boxesFrom label ((c :: cs) :: rest) = .ok bs) :
    ∃ b bs', boxOf label c cs = .ok b ∧ boxesFrom (label + 1) rest = .ok bs' ∧ bs = b :: bs' := by
  obtain ⟨b, hb⟩ := boxOf_ok label c cs
  obtain ⟨bs', hbs⟩ := boxesFrom_ok rest (label + 1)
  rw [boxesFrom, hb, hbs] at h
  exact ⟨b, bs', hb, hbs, (Except.ok.inj h).symm⟩

theorem mem_boxesFrom_iff (h : boxesFrom label groups = .ok bs) :
    b ∈ bs ↔ ∃ i c cs, groups[i]? = some (c :: cs) ∧ boxOf (label + i) c cs = .ok b := by
  induction groups generalizing label bs with
  | nil =>
    obtain rfl := Except.ok.inj h
    simp
  | cons group rest ih =>
    have hrest : ∀ bs', boxesFrom (label + 1) rest = .ok bs' → (b ∈ bs' ↔ ∃ i c cs,
        (group :: rest)[i + 1]? = some (c :: cs) ∧ boxOf (label + (i + 1)) c cs = .ok b) := by
      intro bs' h'
      rw [ih h']
      simp only [List.getElem?_cons_succ, Nat.add_assoc, Nat.add_comm 1]
    cases group with
    | nil =>
      rw [hrest bs h]
      constructor
      · rintro ⟨i, c, cs, hi, hb⟩
        exact ⟨i + 1, c, cs, hi, hb⟩
      · rintro ⟨i | i, c, cs, hi, hb⟩
        · simp at hi
        · exact ⟨i, c, cs, hi, hb⟩
    | cons c cs =>
      obtain ⟨a, bs', ha, h', rfl⟩ := boxesFrom_cons_cases h
      rw [List.mem_cons, hrest bs' h']
      constructor
      · rintro (rfl | ⟨i, c', cs', hi, hb⟩)
        · exact ⟨0, c, cs, rfl, ha⟩
        · exact ⟨i + 1, c', cs', hi, hb⟩
      · rintro ⟨i | i, c', cs', hi, hb⟩
        · simp only [List.getElem?_cons_zero, Option.some.injEq, List.cons.injEq] at hi
          obtain ⟨rfl, rfl⟩ := hi
          exact .inl (Except.ok.inj (hb.symm.trans ha))
        · exact .inr ⟨i, c', cs', hi, hb⟩

theorem le_label_of_mem_boxesFrom (h : boxesFrom label groups = .ok bs) (hb : b ∈ bs) :
    label ≤ b.label := by
  obtain ⟨i, c, cs, -, hi⟩ := (mem_boxesFrom_iff h).mp hb
  rw [label_boxOf hi]
  exact Nat.le_add_right label i

theorem pairwise_boxesFrom (h : boxesFrom label groups = .ok bs) :
    bs.Pairwise fun a b => a.label < b.label := by
  induction groups generalizing label bs with
  | nil =>
    obtain rfl := Except.ok.inj h
    exact .nil
  | cons group rest ih =>
    cases group with
    | nil => exact ih h
    | cons c cs =>
      obtain ⟨a, bs', ha, h', rfl⟩ := boxesFrom_cons_cases h
      refine .cons (fun b hb => ?_) (ih h')
      rw [label_boxOf ha]
      exact le_label_of_mem_boxesFrom h' hb

/-! ## Boxes of a grid -/

theorem checkLabels_eq_ok_iff :
    checkLabels count cells = .ok () ↔ ∀ c ∈ cells, c.label ≤ count := by
  induction cells with
  | nil => simp [checkLabels]
  | cons c cs ih =>
    unfold checkLabels
    rw [List.forall_mem_cons]
    split
    next hc => simp [Nat.not_le.mpr hc]
    next hc => rw [ih, and_iff_right (Nat.not_lt.mp hc)]

/-- **A grid without a label above the count has boxes**, those of its labels' cells. -/
theorem boxes_ok (h : ∀ c ∈ g.cells, c.label ≤ count) :
    ∃ bs, g.boxes count = .ok bs ∧ boxesFrom 1 (labelGroups count g.cells) = .ok bs := by
  obtain ⟨bs, hbs⟩ := boxesFrom_ok (labelGroups count g.cells) 1
  refine ⟨bs, ?_, hbs⟩
  unfold LabelGrid.boxes
  rw [checkLabels_eq_ok_iff.mpr h, labelGroups_eq]
  exact hbs

/-- **The boxes are those of the labels in use**, in their order. -/
structure GridBoxes (g : LabelGrid) (bs : List Box) : Prop where
  ordered : bs.Pairwise fun a b => a.label < b.label
  /-- A label has a box exactly if it is not background and some pixel has it. -/
  label_mem_iff : ∀ l, (∃ b ∈ bs, b.label = l) ↔ l ≠ 0 ∧ l ∈ g.labels
  /-- A box counts the pixels of its label … -/
  pixelCount_eq : ∀ b ∈ bs, b.pixelCount = g.labels.count b.label
  /-- … and cuts them out. -/
  cutsOut : ∀ b ∈ bs, b.CutsOut fun x y => g.get? x y = some b.label

theorem labelCells_eq_cons_of_mem (hl : l ∈ g.labels) : ∃ c cs, labelCells g.cells l = c :: cs := by
  have hpos : 0 < g.labels.count l := Array.count_pos_iff.mpr hl
  rw [← LabelGrid.length_filter_cells] at hpos
  exact List.exists_cons_of_ne_nil (List.ne_nil_of_length_pos hpos)

theorem exists_labelCells_iff {x y : Nat} :
    (∃ c ∈ labelCells g.cells l, c.x = x ∧ c.y = y) ↔ g.get? x y = some l := by
  constructor
  · rintro ⟨c, hc, rfl, rfl⟩
    obtain ⟨hmem, rfl⟩ := mem_labelCells_iff.mp hc
    exact LabelGrid.mem_cells_iff.mp hmem
  · intro h
    exact ⟨⟨x, y, l⟩, mem_labelCells_iff.mpr ⟨LabelGrid.mem_cells_iff.mpr h, rfl⟩, rfl, rfl⟩

theorem cutsOut_labelCells (hcells : labelCells g.cells l = c :: cs) (hb : boxOf l c cs = .ok b) :
    b.label = l ∧ b.pixelCount = g.labels.count l ∧ b.CutsOut fun x y => g.get? x y = some l := by
  have hdiff : (c :: cs).Pairwise fun c d => ¬ (c.x = d.x ∧ c.y = d.y) :=
    hcells ▸ g.pairwise_cells.filter _
  obtain ⟨hlabel, hcount, hcuts⟩ := cutsOut_boxOf hb hdiff
  rw [← hcells] at hcount hcuts
  simp only [exists_labelCells_iff] at hcuts
  exact ⟨hlabel, hcount.trans (g.length_filter_cells l), hcuts⟩

theorem mem_boxes_iff (h : boxesFrom 1 (labelGroups count g.cells) = .ok bs) :
    b ∈ bs ↔ ∃ l c cs, l ≠ 0 ∧ l ≤ count ∧ labelCells g.cells l = c :: cs ∧
      boxOf l c cs = .ok b := by
  rw [mem_boxesFrom_iff h]
  constructor
  · rintro ⟨i, c, cs, hi, hb⟩
    have hlt : i < count := by
      rw [← length_labelGroups count g.cells]
      exact (List.getElem?_eq_some_iff.mp hi).1
    rw [getElem?_labelGroups hlt] at hi
    exact ⟨i + 1, c, cs, by omega, hlt, Option.some.inj hi, Nat.add_comm 1 i ▸ hb⟩
  · rintro ⟨l, c, cs, h0, hl, hcells, hb⟩
    obtain ⟨i, rfl⟩ := Nat.exists_eq_succ_of_ne_zero h0
    exact ⟨i, c, cs, by rw [getElem?_labelGroups hl, ← hcells], Nat.add_comm i 1 ▸ hb⟩

/-- **The boxes of a grid are those of the labels in use.** -/
theorem gridBoxes_of_boxes (hle : ∀ l ∈ g.labels, l ≤ count)
    (h : boxesFrom 1 (labelGroups count g.cells) = .ok bs) : GridBoxes g bs where
  ordered := pairwise_boxesFrom h
  label_mem_iff l := by
    constructor
    · rintro ⟨b, hb, rfl⟩
      obtain ⟨l, c, cs, h0, -, hcells, hbox⟩ := (mem_boxes_iff h).mp hb
      rw [label_boxOf hbox]
      refine ⟨h0, Array.count_pos_iff.mp ?_⟩
      rw [← LabelGrid.length_filter_cells, show g.cells.filter (·.label = l) = c :: cs from hcells]
      exact Nat.succ_pos cs.length
    · rintro ⟨h0, hl⟩
      obtain ⟨c, cs, hcells⟩ := labelCells_eq_cons_of_mem hl
      obtain ⟨b, hb⟩ := boxOf_ok l c cs
      exact ⟨b, (mem_boxes_iff h).mpr ⟨l, c, cs, h0, hle l hl, hcells, hb⟩, label_boxOf hb⟩
  pixelCount_eq b hb := by
    obtain ⟨l, c, cs, -, -, hcells, hbox⟩ := (mem_boxes_iff h).mp hb
    obtain ⟨rfl, hcount, -⟩ := cutsOut_labelCells hcells hbox
    exact hcount
  cutsOut b hb := by
    obtain ⟨l, c, cs, -, -, hcells, hbox⟩ := (mem_boxes_iff h).mp hb
    obtain ⟨rfl, -, hcuts⟩ := cutsOut_labelCells hcells hbox
    exact hcuts

theorem exists_gridBoxes (hle : ∀ l ∈ g.labels, l ≤ count) :
    ∃ bs, g.boxes count = .ok bs ∧ GridBoxes g bs := by
  have hcells : ∀ c ∈ g.cells, c.label ≤ count := fun c hc =>
    hle c.label (Array.mem_toList_iff.mp (g.map_label_cells ▸ List.mem_map_of_mem hc))
  obtain ⟨bs, hbs, hfrom⟩ := boxes_ok hcells
  exact ⟨bs, hbs, gridBoxes_of_boxes hle hfrom⟩

end Bitplane.Region
