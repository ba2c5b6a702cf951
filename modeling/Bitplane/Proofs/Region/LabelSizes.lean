import Mathlib.Algebra.BigOperators.Group.List.Basic
import Mathlib.Algebra.Ring.Nat
import Bitplane.Proofs.Region.ExtractionPasses

/-! # Sizes of labels and the boxes that go with them

The sizes of the labels and their boxes are made by passes of their own, but of one grid, and tell
the same: the size of a label is the number of pixels that its box counts, and a label of size zero
has no box. A grid with a label above the count is refused by both, for the first such label row by
row.

* `pairwise_isBefore_cells`: the cells stand row by row, each row from the left; `mem_front_iff`:
  those in front of a cell are those that come before it.
* `Refused`: what a grid is refused for; `checkLabels_cells_eq_error_iff`: the passes refuse that.
* `sizesOf`: what the pass that counts holds after some labels; `countLabel_sizesOf`,
  `foldlM_countLabel`: one label more, and all of them; `sum_sizesOf`: the sizes add up.
* `SizesMatch`: what sizes and boxes say of each other and of the grid.
* `sizes_agree_with_boxes`: both passes refuse the same grids, and match on all others. -/

namespace Bitplane

open Region

/-- **The first cell comes before the second**, row by row, in each row from the left. -/
def Cell.IsBefore (c d : Cell) : Prop := c.y < d.y ∨ c.y = d.y ∧ c.x < d.x

theorem Cell.IsBefore.asymm {c d : Cell} (h : c.IsBefore d) : ¬ d.IsBefore c := by
  unfold IsBefore at h ⊢
  omega

namespace LabelGrid

variable {g : LabelGrid} {b : Box} {bs : List Box} {cells : List Cell} {e : Region.Error}
  {ns done labels : List Nat} {count i l : Nat}

/-! ## The first label above the count -/

theorem pairwise_isBefore_cells (g : LabelGrid) : g.cells.Pairwise Cell.IsBefore := by
  unfold cells
  rw [List.pairwise_map]
  have hplaces : (g.labels.toList.zipIdx.map Prod.snd).Pairwise (· < ·) := by
    rw [List.zipIdx_map_snd]
    exact List.pairwise_lt_range'
  rw [List.pairwise_map] at hplaces
  refine hplaces.imp ?_
  rintro ⟨l, i⟩ ⟨k, j⟩ hij
  rcases Nat.lt_or_eq_of_le (Nat.div_le_div_right (c := g.width) (Nat.le_of_lt hij)) with hlt | heq
  · exact .inl hlt
  · have hi := Nat.div_add_mod i g.width
    have hj := Nat.div_add_mod j g.width
    simp only at hij heq
    rw [heq] at hi
    exact .inr ⟨heq, show i % g.width < j % g.width by omega⟩

theorem mem_front_iff {c d : Cell} {before after : List Cell}
    (hcells : g.cells = before ++ c :: after) :
    d ∈ before ↔ d ∈ g.cells ∧ d.IsBefore c := by
  have hbefore := g.pairwise_isBefore_cells
  rw [hcells, List.pairwise_append, List.pairwise_cons] at hbefore
  obtain ⟨-, ⟨hafter, -⟩, hcross⟩ := hbefore
  rw [hcells]
  constructor
  · exact fun hd => ⟨List.mem_append_left _ hd, hcross d hd c List.mem_cons_self⟩
  · rintro ⟨hmem, hd⟩
    rcases List.mem_append.mp hmem with hmem | hmem
    · exact hmem
    -- neither the cell itself nor one behind it comes before it
    · rcases List.mem_cons.mp hmem with rfl | hmem
      · exact absurd hd hd.asymm
      · exact absurd hd (hafter d hmem).asymm

/-- **What a grid is refused for**: the first of its labels, row by row, that is above the count. -/
inductive Refused (g : LabelGrid) (count : Nat) : Region.Error → Prop
  | above {c : Cell} (hc : g.get? c.x c.y = some c.label) (hcount : count < c.label)
    (hfirst : ∀ d : Cell, d.IsBefore c → g.get? d.x d.y = some d.label → d.label ≤ count) :
    Refused g count (.labelOutOfRange c.label count)

theorem checkLabels_eq (count : Nat) (cells : List Cell) : checkLabels count cells =
    match cells.find? fun c => count < c.label with
    | none => .ok ()
    | some c => .error (.labelOutOfRange c.label count) := by
  induction cells with
  | nil => rfl
  | cons c cs ih =>
    unfold checkLabels
    rw [List.find?_cons]
    by_cases hc : count < c.label
    · rw [if_pos hc, decide_eq_true hc]
    · rw [if_neg hc, decide_eq_false hc, ih]

/-- **The check of the labels refuses the first above the count.** -/
theorem checkLabels_cells_eq_error_iff :
    checkLabels count g.cells = .error e ↔ g.Refused count e := by
  rw [checkLabels_eq]
  constructor
  · intro h
    cases hfind : g.cells.find? fun c => count < c.label with
    | none => rw [hfind] at h; cases h
    | some c =>
      rw [hfind] at h
      obtain rfl := Except.error.inj h
      obtain ⟨hc, before, after, hcells, hle⟩ := List.find?_eq_some_iff_append.mp hfind
      refine .above (mem_cells_iff.mp (hcells ▸ by simp)) (of_decide_eq_true hc) fun d hd hget => ?_
      have hmem := (mem_front_iff hcells).mpr ⟨mem_cells_iff.mpr hget, hd⟩
      simpa using hle d hmem
  · rintro @⟨c, hget, hcount, hfirst⟩
    obtain ⟨before, after, hcells⟩ := List.append_of_mem (mem_cells_iff.mpr hget)
    have hle : ∀ d ∈ before, d.label ≤ count := fun d hd => by
      obtain ⟨hmem, hdc⟩ := (mem_front_iff hcells).mp hd
      exact hfirst d hdc (mem_cells_iff.mp hmem)
    have hfind : (g.cells.find? fun d => count < d.label) = some c :=
      List.find?_eq_some_iff_append.mpr
        ⟨decide_eq_true hcount, before, after, hcells, fun d hd => by simpa using hle d hd⟩
    rw [hfind]

theorem checkLabels_cells_eq_ok_iff :
    checkLabels count g.cells = .ok () ↔ ∀ l ∈ g.labels, l ≤ count := by
  rw [checkLabels_eq_ok_iff]
  simp only [← Array.mem_toList_iff, ← map_label_cells, List.forall_mem_map]

theorem exists_refused_iff : (∃ e, g.Refused count e) ↔ ∃ l ∈ g.labels, count < l := by
  simp only [← checkLabels_cells_eq_error_iff]
  cases hcheck : checkLabels count g.cells with
  | error e =>
    refine iff_of_true ⟨e, rfl⟩ ?_
    by_contra hno
    rw [checkLabels_cells_eq_ok_iff.mpr (by simpa using hno)] at hcheck
    cases hcheck
  | ok u =>
    refine iff_of_false (fun ⟨e, he⟩ => nomatch he) fun ⟨l, hl, hlt⟩ => ?_
    exact absurd (checkLabels_cells_eq_ok_iff.mp hcheck l hl) (Nat.not_le_of_lt hlt)

/-- **The boxes are refused for the same.** -/
theorem boxes_eq_error_iff : g.boxes count = .error e ↔ g.Refused count e := by
  rw [← checkLabels_cells_eq_error_iff]
  cases hcheck : checkLabels count g.cells with
  | error e' =>
    have hboxes : g.boxes count = .error e' := by
      unfold boxes
      rw [hcheck]
      rfl
    rw [hboxes, Except.error.injEq, Except.error.injEq]
  | ok u =>
    obtain ⟨bs, hboxes, -⟩ := exists_gridBoxes (checkLabels_cells_eq_ok_iff.mp hcheck)
    rw [hboxes]
    exact iff_of_false (fun h => nomatch h) fun h => nomatch h

/-! ## Counting -/

/-- **The sizes of the labels `1, …, count`** in a list of labels. -/
def sizesOf (count : Nat) (labels : List Nat) : Array Nat :=
  ((List.range count).map fun i => labels.count (i + 1)).toArray

@[simp] theorem size_sizesOf : (sizesOf count labels).size = count := by simp [sizesOf]

theorem getElem?_sizesOf (hi : i < count) :
    (sizesOf count labels)[i]? = some (labels.count (i + 1)) := by
  simp [sizesOf, hi]

theorem eq_sizesOf {sizes : Array Nat} (hs : sizes.size = count)
    (h : ∀ i < count, sizes[i]? = some (labels.count (i + 1))) : sizes = sizesOf count labels :=
  eq_of_entries hs size_sizesOf fun i hi => (h i hi).trans (getElem?_sizesOf hi).symm

theorem replicate_eq_sizesOf : Array.replicate count 0 = sizesOf count [] :=
  eq_sizesOf Array.size_replicate fun i hi => by
    rw [Array.getElem?_replicate, if_pos hi, List.count_nil]

theorem countLabel_sizesOf (hl : l ≤ count) :
    countLabel count (sizesOf count done) l = .ok (sizesOf count (done ++ [l])) := by
  unfold countLabel
  by_cases h0 : l = 0
  · rw [if_pos h0]
    refine congrArg Except.ok (eq_sizesOf size_sizesOf fun i hi => ?_)
    rw [getElem?_sizesOf hi, List.count_append, List.count_singleton, if_neg (by simp [h0])]
    rfl
  · rw [if_neg h0, if_neg (Nat.not_lt_of_le hl)]
    refine congrArg Except.ok (eq_sizesOf (by rw [Array.size_modify, size_sizesOf]) fun i hi => ?_)
    rw [Array.getElem?_modify, getElem?_sizesOf hi, List.count_append, List.count_singleton]
    by_cases hil : l = i + 1
    · rw [if_pos (by omega), if_pos (by simp [hil])]
      rfl
    · rw [if_neg (by omega), if_neg (by simpa using hil)]
      rfl

/-- **The pass counts all labels**, or refuses the first above the count. -/
theorem foldlM_countLabel (count : Nat) (done : List Nat) (cells : List Cell) :
    (cells.map Cell.label).foldlM (countLabel count) (sizesOf count done) =
      (checkLabels count cells).map fun _ => sizesOf count (done ++ cells.map Cell.label) := by
  induction cells generalizing done with
  | nil =>
    rw [List.map_nil, List.append_nil]
    rfl
  | cons c cs ih =>
    rw [List.map_cons, List.foldlM_cons, List.append_cons]
    unfold checkLabels
    by_cases hc : count < c.label
    · unfold countLabel
      rw [if_neg (Nat.ne_of_gt (Nat.zero_lt_of_lt hc)), if_pos hc, if_pos hc]
      rfl
    · rw [if_neg hc, countLabel_sizesOf (Nat.le_of_not_lt hc)]
      exact ih (done ++ [c.label])

theorem sizes_eq (g : LabelGrid) (count : Nat) : g.sizes count =
    (checkLabels count g.cells).map fun _ => (sizesOf count g.labels.toList).toList := by
  unfold sizes
  rw [replicate_eq_sizesOf, ← map_label_cells, foldlM_countLabel]
  cases checkLabels count g.cells <;> rfl

theorem countP_le_succ (labels : List Nat) (n : Nat) :
    labels.countP (fun l => l ≠ 0 ∧ l ≤ n + 1) =
      labels.countP (fun l => l ≠ 0 ∧ l ≤ n) + labels.count (n + 1) := by
  induction labels with
  | nil => rfl
  | cons l labels ih =>
    rw [List.countP_cons, List.countP_cons, List.count_cons, ih]
    simp only [decide_eq_true_eq, beq_iff_eq]
    split_ifs <;> omega

theorem sum_count_range (labels : List Nat) (n : Nat) :
    ((List.range n).map fun i => labels.count (i + 1)).sum =
      labels.countP fun l => l ≠ 0 ∧ l ≤ n := by
  induction n with
  | zero => exact (List.countP_eq_zero.mpr fun l _ => by simp).symm
  | succ n ih => rw [List.sum_range_succ, ih, countP_le_succ]

/-- **The sizes of all labels add up** to the number of labels that are not background. -/
theorem sum_sizesOf (h : ∀ l ∈ labels, l ≤ count) :
    (sizesOf count labels).toList.sum = labels.countP (· != 0) := by
  unfold sizesOf
  rw [sum_count_range]
  exact List.countP_congr fun l hl => by simp [h l hl]

/-! ## Sizes and boxes -/

/-- **The sizes of the labels `1, …, count` match the boxes of those in use.** -/
structure SizesMatch (g : LabelGrid) (count : Nat) (ns : List Nat) (bs : List Box) : Prop where
  length_eq : ns.length = count
  /-- A size is the number of pixels with the label. -/
  size_eq : ∀ i < count, ns[i]? = some (g.labels.count (i + 1))
  /-- A label has no more than one box, of a label that is counted, … -/
  ordered : bs.Pairwise fun a b => a.label < b.label
  label_mem : ∀ b ∈ bs, 1 ≤ b.label ∧ b.label ≤ count
  /-- … which counts as many pixels, … -/
  pixelCount_eq : ∀ b ∈ bs, ns[b.label - 1]? = some b.pixelCount
  /-- … and none exactly if it has no pixels. -/
  zero_iff : ∀ i < count, ns[i]? = some 0 ↔ ∀ b ∈ bs, b.label ≠ i + 1
  /-- All sizes together count the pixels that are not background. -/
  sum_eq : ns.sum = g.labels.countP (· != 0)

theorem sizesMatch_of_gridBoxes (hle : ∀ l ∈ g.labels, l ≤ count) (h : GridBoxes g bs) :
    SizesMatch g count (sizesOf count g.labels.toList).toList bs := by
  have hsize : ∀ i < count, (sizesOf count g.labels.toList).toList[i]? =
      some (g.labels.count (i + 1)) := fun i hi => by
    rw [Array.getElem?_toList, getElem?_sizesOf hi, Array.count_toList]
  have hlabel : ∀ b ∈ bs, 1 ≤ b.label ∧ b.label ≤ count := fun b hb => by
    obtain ⟨h0, hmem⟩ := (h.label_mem_iff b.label).mp ⟨b, hb, rfl⟩
    exact ⟨Nat.one_le_iff_ne_zero.mpr h0, hle _ hmem⟩
  refine ⟨by simp, hsize, h.ordered, hlabel, fun b hb => ?_, fun i hi => ?_, ?_⟩
  · obtain ⟨h1, h2⟩ := hlabel b hb
    rw [hsize _ (by omega), Nat.sub_add_cancel h1, h.pixelCount_eq b hb]
  · rw [hsize i hi, Option.some.injEq, Array.count_eq_zero]
    constructor
    · intro hno b hb hbl
      exact hno (hbl ▸ ((h.label_mem_iff b.label).mp ⟨b, hb, rfl⟩).2)
    · intro hno hmem
      obtain ⟨b, hb, hbl⟩ := (h.label_mem_iff (i + 1)).mpr ⟨Nat.succ_ne_zero i, hmem⟩
      exact hno b hb hbl
  · rw [sum_sizesOf fun l hl => hle l (Array.mem_toList_iff.mp hl), Array.countP_toList]

/-- **Sizes and boxes agree.** On a grid with sides that fit a word both are refused for the first
label above the count, row by row, and for nothing else; no step of the extraction is out of range.
Where no label is above the count, both are made, and match; and the sizes fit a word of 64 bits. -/
theorem sizes_agree_with_boxes (hw : g.width < wordLimit) (hh : g.height < wordLimit)
    (hcount : count < wordLimit) :
    (∀ e, g.sizes count = .error e ↔ g.Refused count e) ∧
    (∀ e, g.extract count = .error e ↔ ∃ e', e = .refused e' ∧ g.Refused count e') ∧
    ((∃ e, g.Refused count e) ↔ ∃ l ∈ g.labels, count < l) ∧
    ((∀ l ∈ g.labels, l ≤ count) → ∃ ns bs, g.sizes count = .ok ns ∧ g.extract count = .ok bs ∧
      SizesMatch g count ns bs ∧ ∀ n ∈ ns, n < longLimit) := by
  have hextract := extract_eq hw hh hcount
  refine ⟨fun e => ?_, fun e => ?_, exists_refused_iff, fun hle => ?_⟩
  · rw [sizes_eq, ← checkLabels_cells_eq_error_iff]
    cases checkLabels count g.cells <;> simp [Except.map]
  · simp only [hextract, ← boxes_eq_error_iff]
    cases g.boxes count <;> simp [Except.mapError, eq_comm]
  · obtain ⟨bs, hboxes, hgrid⟩ := exists_gridBoxes hle
    refine ⟨(sizesOf count g.labels.toList).toList, bs, ?_, ?_, sizesMatch_of_gridBoxes hle hgrid,
      ?_⟩
    · rw [sizes_eq, checkLabels_cells_eq_ok_iff.mpr hle]
      rfl
    · rw [hextract, hboxes]
      rfl
    · intro n hn
      obtain ⟨i, -, rfl⟩ := List.mem_map.mp hn
      calc g.labels.toList.count (i + 1) ≤ g.labels.toList.length := List.count_le_length
        _ = g.width * g.height := g.size_labels
        _ < longLimit := mul_lt_longLimit hw hh

/-- Labels `1` and `3` in use and `2` not. -/
theorem sizes_agree_with_boxes_unused :
    let g : LabelGrid := ⟨4, 2, #[1, 1, 0, 3, 0, 0, 0, 3], by decide, by decide, by decide⟩
    g.width < wordLimit ∧ g.height < wordLimit ∧ 3 < wordLimit ∧ (∀ l ∈ g.labels, l ≤ 3) ∧
      ∃ bs, g.sizes 3 = .ok [2, 0, 2] ∧ g.extract 3 = .ok bs ∧ SizesMatch g 3 [2, 0, 2] bs := by
  intro g
  have hw : g.width < wordLimit := by decide
  have hh : g.height < wordLimit := by decide
  have hcount : 3 < wordLimit := by decide
  have hle : ∀ l ∈ g.labels, l ≤ 3 := by decide
  obtain ⟨ns, bs, hsizes, hextract, hmatch, -⟩ := (sizes_agree_with_boxes hw hh hcount).2.2.2 hle
  have hns : g.sizes 3 = .ok [2, 0, 2] := by decide
  obtain rfl := Except.ok.inj (hsizes.symm.trans hns)
  exact ⟨hw, hh, hcount, hle, bs, hns, hextract, hmatch⟩

end LabelGrid

end Bitplane
