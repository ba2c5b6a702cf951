import Bitplane.Proofs.Region.GridBoxes
import Bitplane.Region.Extraction

/-! # The two passes cut out the boxes of the grid

On a grid whose sides fit a word of 32 bits no step of the extraction is out of range, and its
answer is that of `boxes`. Each pass is described by the state it is in once some cells are done:

* `tallies count cells`: the tally of every label over the cells done (`foldlM_tallyCell`);
* `slotsFrom k groups`: the slots of labels with the given groups of cells, the first box at place
  `k` (`foldlM_pass?`, `slotsFrom_box`);
* `Box.sketch b cells`: a box with the cells done drawn into its mask, and no other
  (`foldlM_drawCell`).

`extract_eq` puts the passes together. -/

namespace Bitplane.Region

variable {g : LabelGrid} {e : Extent} {b : Box} {bs : List Box} {c d : Cell}
  {cs cells done : List Cell} {groups : List (List Cell)} {t : BoxTable} {m n : Raster}
  {count i k l label x₀ y₀ : Nat}

/-! ## Words -/

theorem require_some {α : Type} (v : α) : require (some v) = .ok v := rfl

theorem require_add {n x y : Nat} (h : x + y < n) :
    require (Word.add? n x y) = .ok (x + y) := by rw [Word.add?, if_pos h, require]

theorem require_mul {n x y : Nat} (h : x * y < n) :
    require (Word.mul? n x y) = .ok (x * y) := by rw [Word.mul?, if_pos h, require]

theorem require_sub {x y : Nat} (h : y ≤ x) : require (Word.sub? x y) = .ok (x - y) := by
  rw [Word.sub?, if_pos h, require]

theorem mul_lt_longLimit {x y : Nat} (hx : x < wordLimit) (hy : y < wordLimit) :
    x * y < longLimit :=
  calc x * y < wordLimit * wordLimit := Nat.mul_lt_mul'' hx hy
    _ = longLimit := by decide

/-! ## Tallies -/

theorem eq_of_entries {α : Type} {as bs : Array α} {n : Nat} (ha : as.size = n) (hb : bs.size = n)
    (h : ∀ i < n, as[i]? = bs[i]?) : as = bs := by
  refine Array.ext_getElem? fun i => ?_
  by_cases hi : i < n
  · exact h i hi
  · rw [Array.getElem?_eq_none (by omega), Array.getElem?_eq_none (by omega)]

/-- The tally of a list of cells. -/
def Tally.of (cells : List Cell) : Tally :=
  ⟨cells.foldl Extent.add Tally.empty.extent, cells.length⟩

theorem Tally.add?_of (h : cells.length + 1 < longLimit) (c : Cell) :
    (Tally.of cells).add? c = .ok (Tally.of (cells ++ [c])) := by
  have hn : (Tally.of cells).pixels + 1 < longLimit := h
  unfold Tally.add?
  rw [require_add hn]
  unfold Tally.of
  rw [List.foldl_append, List.length_append]
  rfl

/-- The tallies of the labels `1, …, count`. -/
def tallies (count : Nat) (cells : List Cell) : Array Tally :=
  ((labelGroups count cells).map Tally.of).toArray

@[simp] theorem size_tallies : (tallies count cells).size = count := by simp [tallies]

theorem getElem?_tallies (hi : i < count) :
    (tallies count cells)[i]? = some (Tally.of (labelCells cells (i + 1))) := by
  unfold tallies
  rw [List.getElem?_toArray, List.getElem?_map, getElem?_labelGroups hi]
  rfl

theorem eq_tallies {ts : Array Tally} (hs : ts.size = count)
    (h : ∀ i < count, ts[i]? = some (Tally.of (labelCells cells (i + 1)))) :
    ts = tallies count cells :=
  eq_of_entries hs size_tallies fun i hi => (h i hi).trans (getElem?_tallies hi).symm

theorem replicate_eq_tallies : Array.replicate count Tally.empty = tallies count [] :=
  eq_tallies Array.size_replicate fun i hi => by
    rw [Array.getElem?_replicate, if_pos hi]
    rfl

theorem labelCells_concat : labelCells (cells ++ [c]) l =
    if c.label = l then labelCells cells l ++ [c] else labelCells cells l := by
  unfold labelCells
  rw [List.filter_append]
  by_cases h : c.label = l <;> simp [h]

theorem length_labelCells_le (cells : List Cell) (l : Nat) :
    (labelCells cells l).length ≤ cells.length := List.length_filter_le _ _

theorem tallyCell_tallies (hc : c.label ≤ count) (hlen : cells.length + 1 < longLimit) :
    tallyCell count (tallies count cells) c = .ok (tallies count (cells ++ [c])) := by
  unfold tallyCell
  by_cases h0 : c.label = 0
  · rw [if_pos h0]
    refine congrArg Except.ok (eq_tallies size_tallies fun i hi => ?_)
    rw [getElem?_tallies hi, labelCells_concat, if_neg (by omega)]
  · have hle := length_labelCells_le cells c.label
    have hget : (tallies count cells)[c.label - 1]? =
        some (Tally.of (labelCells cells (c.label - 1 + 1))) := getElem?_tallies (by omega)
    rw [Nat.sub_add_cancel (Nat.pos_of_ne_zero h0)] at hget
    rw [if_neg h0, if_neg (by omega), hget]
    simp only [require, Tally.add?_of (Nat.lt_of_le_of_lt (Nat.succ_le_succ hle) hlen), bind,
      Except.bind, pure, Except.pure]
    refine congrArg Except.ok (eq_tallies (by rw [Array.size_setIfInBounds, size_tallies])
      fun i hi => ?_)
    rw [Array.getElem?_setIfInBounds, size_tallies, getElem?_tallies hi, labelCells_concat]
    by_cases hic : c.label = i + 1
    · rw [if_pos (by omega), if_pos (by omega), if_pos hic, hic]
    · rw [if_neg (by omega), if_neg hic]

/-- **The first pass** tallies all cells, or refuses the first label above the count. -/
theorem foldlM_tallyCell (count : Nat) (hlen : done.length + cells.length < longLimit) :
    cells.foldlM (tallyCell count) (tallies count done) =
      match checkLabels count cells with
      | .ok _ => .ok (tallies count (done ++ cells))
      | .error e => .error (.refused e) := by
  induction cells generalizing done with
  | nil =>
    rw [List.append_nil]
    rfl
  | cons c cs ih =>
    rw [List.length_cons] at hlen
    rw [List.foldlM_cons, List.append_cons]
    unfold checkLabels
    by_cases hc : count < c.label
    · unfold tallyCell
      rw [if_neg (by omega), if_pos hc, if_pos hc]
      rfl
    · rw [if_neg hc, tallyCell_tallies (by omega) (by omega)]
      exact ih (by rw [List.length_append, List.length_singleton]; omega)

/-! ## Blank boxes -/

/-- **A box with the given cells of its label drawn into its mask**, and no other. -/
def Box.sketch (b : Box) (cells : List Cell) : Box :=
  { b with mask := (labelCells cells b.label).foldl (mark (8 * b.xByte) b.y) b.mask.template }

/-- The cell's columns and rows can be counted on by one in a word. -/
def Cell.Fits (c : Cell) : Prop := c.x + 1 < wordLimit ∧ c.y + 1 < wordLimit

theorem empty_add (hc : Cell.Fits c) : Tally.empty.extent.add c = Extent.of c := by
  have hx := hc.1
  have hy := hc.2
  unfold Tally.empty Extent.add Extent.of
  simp only [Extent.mk.injEq]
  omega

theorem box?_of (hb : boxOf label c cs = .ok b) (hfits : ∀ d ∈ c :: cs, Cell.Fits d) :
    (Tally.of (c :: cs)).box? label = .ok (b.sketch []) := by
  obtain ⟨e, he⟩ : ∃ e, cs.foldl Extent.add (Extent.of c) = e := ⟨_, rfl⟩
  have hspans : e.Spans (c :: cs) := he ▸ Extent.spans_foldl c cs
  have hx := hspans.minX_le_maxX
  have hy := hspans.minY_le_maxY
  have hmaxX : e.maxX + 1 < wordLimit := by
    obtain ⟨d, hd, hdx⟩ := hspans.maxX_eq
    exact hdx ▸ (hfits d hd).1
  have hmaxY : e.maxY + 1 < wordLimit := by
    obtain ⟨d, hd, hdy⟩ := hspans.maxY_eq
    exact hdy ▸ (hfits d hd).2
  have htally : Tally.of (c :: cs) = ⟨e, cs.length + 1⟩ := by
    unfold Tally.of
    rw [List.foldl_cons, empty_add (hfits c List.mem_cons_self), he, List.length_cons]
  rw [boxOf_eq label c cs he hspans] at hb
  obtain rfl := Except.ok.inj hb
  have hblank : Raster.blank? (e.maxX + 1 - 8 * (e.minX / 8)) (e.maxY + 1 - e.minY) =
      .ok (e.canvas hx hy) := dif_pos ⟨by omega, by omega⟩
  have hmaskX : require (Word.mul? wordLimit (e.minX / 8) 8) = .ok (8 * (e.minX / 8)) := by
    rw [Nat.mul_comm 8]
    exact require_mul (by omega)
  have hmaskWidth : require (Word.sub? (e.maxX + 1) (8 * (e.minX / 8))) =
      .ok (e.maxX + 1 - 8 * (e.minX / 8)) := require_sub (by omega)
  have hheight : require (Word.add? wordLimit (e.maxY - e.minY) 1) = .ok (e.maxY + 1 - e.minY) := by
    rw [Nat.sub_add_comm hy]
    exact require_add (by omega)
  have hwidth : require (Word.add? wordLimit (e.maxX - e.minX) 1) = .ok (e.maxX + 1 - e.minX) := by
    rw [Nat.sub_add_comm hx]
    exact require_add (by omega)
  have hmask : ((c :: cs).foldl (mark (8 * (e.minX / 8)) e.minY) (e.canvas hx hy)).template =
      e.canvas hx hy := template_foldl_mark
  unfold Tally.box? Box.sketch
  rw [htally]
  simp only [require_add hmaxX, hmaskX, hmaskWidth, require_sub hy, hheight, require_sub hx, hwidth,
    hblank, bind, Except.bind]
  exact congrArg (fun m => Except.ok (e.box label (cs.length + 1) m)) hmask.symm

/-! ## Slots -/

/-- **The slots of labels with the given cells**: those without any have none, the boxes of the
others stand one behind the other from place `k` on. -/
def slotsFrom (k : Nat) : List (List Cell) → List (Option Nat)
  | [] => []
  | [] :: rest => none :: slotsFrom k rest
  | (_ :: _) :: rest => some k :: slotsFrom (k + 1) rest

theorem pass?_of_nil (t : BoxTable) :
    t.pass? (Tally.of []) = .ok { t with slots := t.slots.push none } := by
  unfold BoxTable.pass?
  exact if_pos rfl

theorem pass?_of_cons (hb : boxOf (t.slots.size + 1) c cs = .ok b)
    (hsize : t.slots.size + 1 < wordLimit) (hfits : ∀ d ∈ c :: cs, Cell.Fits d) :
    t.pass? (Tally.of (c :: cs)) =
      .ok ⟨t.boxes.push (b.sketch []), t.slots.push (some t.boxes.size)⟩ := by
  have hpixels : (Tally.of (c :: cs)).pixels ≠ 0 := Nat.succ_ne_zero cs.length
  unfold BoxTable.pass?
  rw [if_neg hpixels, require_add hsize]
  simp only [bind, Except.bind, box?_of hb hfits]
  rfl

/-- **Between the passes** every label with cells gets its blank box and its slot. -/
theorem foldlM_pass? (h : boxesFrom (t.slots.size + 1) groups = .ok bs)
    (hlen : t.slots.size + groups.length < wordLimit)
    (hfits : ∀ group ∈ groups, ∀ c ∈ group, Cell.Fits c) :
    (groups.map Tally.of).foldlM BoxTable.pass? t =
      .ok ⟨t.boxes ++ (bs.map (·.sketch [])).toArray,
        t.slots ++ (slotsFrom t.boxes.size groups).toArray⟩ := by
  induction groups generalizing t bs with
  | nil =>
    obtain rfl := Except.ok.inj h
    simp [slotsFrom, pure, Except.pure]
  | cons group rest ih =>
    rw [List.length_cons] at hlen
    have hrest : ∀ group ∈ rest, ∀ c ∈ group, Cell.Fits c :=
      fun group hg => hfits group (List.mem_cons_of_mem _ hg)
    rw [List.map_cons, List.foldlM_cons]
    cases group with
    | nil =>
      have h' : boxesFrom ((t.slots.push none).size + 1) rest = .ok bs := by
        rw [Array.size_push]
        exact h
      rw [pass?_of_nil]
      simp only [bind, Except.bind]
      rw [ih h' (by simp; omega) hrest]
      simp [slotsFrom]
    | cons c cs =>
      obtain ⟨b, bs', hb, htail, rfl⟩ := boxesFrom_cons_cases h
      have h' : boxesFrom ((t.slots.push (some t.boxes.size)).size + 1) rest = .ok bs' := by
        rw [Array.size_push]
        exact htail
      rw [pass?_of_cons hb (by omega) (hfits _ List.mem_cons_self)]
      simp only [bind, Except.bind]
      rw [ih h' (by simp; omega) hrest]
      simp [slotsFrom]

theorem slotsFrom_box (h : boxesFrom label groups = .ok bs) (hi : groups[i]? = some (c :: cs)) :
    ∃ j b, (slotsFrom k groups)[i]? = some (some (k + j)) ∧ bs[j]? = some b ∧
      boxOf (label + i) c cs = .ok b := by
  induction groups generalizing label bs i k with
  | nil => simp at hi
  | cons group rest ih =>
    cases group with
    | nil =>
      cases i with
      | zero => simp at hi
      | succ i =>
        obtain ⟨j, b, hslot, hbox⟩ := ih (k := k) h hi
        exact ⟨j, b, hslot, by rwa [Nat.add_right_comm, Nat.add_assoc] at hbox⟩
    | cons c' cs' =>
      obtain ⟨b', bs', hb', h', rfl⟩ := boxesFrom_cons_cases h
      cases i with
      | zero =>
        simp only [List.getElem?_cons_zero, Option.some.injEq, List.cons.injEq] at hi
        obtain ⟨rfl, rfl⟩ := hi
        exact ⟨0, b', rfl, rfl, hb'⟩
      | succ i =>
        obtain ⟨j, b, hslot, hbox⟩ := ih (k := k + 1) h' hi
        refine ⟨j + 1, b, ?_, by rwa [Nat.add_right_comm, Nat.add_assoc] at hbox⟩
        rw [Nat.add_assoc, Nat.add_comm 1] at hslot
        exact hslot

/-! ## Drawing -/

theorem Cell.Under.of_size (h : Cell.Under c m x₀ y₀) (hw : n.width = m.width)
    (hh : n.height = m.height) : Cell.Under c n x₀ y₀ :=
  ⟨h.left, h.above, by rw [hw]; exact h.inside.1, by rw [hh]; exact h.inside.2⟩

theorem under_boxOf (hb : boxOf label c cs = .ok b) (hd : d ∈ c :: cs) :
    Cell.Under d b.mask (8 * b.xByte) b.y := by
  have h := Extent.spans_foldl c cs
  rw [boxOf_eq label c cs rfl h] at hb
  obtain rfl := Except.ok.inj hb
  exact (h.under hd).of_size width_foldl_mark height_foldl_mark

theorem sketch_boxOf (hb : boxOf label c cs = .ok b) (hcells : labelCells cells label = c :: cs) :
    b.sketch cells = b := by
  have h := Extent.spans_foldl c cs
  rw [boxOf_eq label c cs rfl h] at hb
  obtain rfl := Except.ok.inj hb
  unfold Box.sketch
  rw [show labelCells cells (Extent.box _ label _ _).label = c :: cs from hcells,
    show (Extent.box _ label _ _).mask.template = _ from template_foldl_mark]
  rfl

theorem sketch_concat (h : b.label = c.label) : b.sketch (done ++ [c]) =
    { b.sketch done with mask := mark (8 * b.xByte) b.y (b.sketch done).mask c } := by
  unfold Box.sketch
  rw [labelCells_concat, if_pos h.symm, List.foldl_append]
  rfl

theorem sketch_concat_of_ne (h : c.label ≠ b.label) : b.sketch (done ++ [c]) = b.sketch done := by
  unfold Box.sketch
  rw [labelCells_concat, if_neg h]

theorem label_ne_of_pairwise {a : Box} {j : Nat} (hord : bs.Pairwise fun a b => a.label < b.label)
    (hi : bs[i]? = some a) (hj : bs[j]? = some b) (hij : i ≠ j) : a.label ≠ b.label := by
  obtain ⟨hlt, rfl⟩ := List.getElem?_eq_some_iff.mp hi
  obtain ⟨hlt', rfl⟩ := List.getElem?_eq_some_iff.mp hj
  rcases Nat.lt_or_gt_of_ne hij with hless | hmore
  · exact Nat.ne_of_lt (List.pairwise_iff_getElem.mp hord i j hlt hlt' hless)
  · exact (Nat.ne_of_lt (List.pairwise_iff_getElem.mp hord j i hlt' hlt hmore)).symm

theorem drawCell_sketch {slots : Array (Option Nat)} {j : Nat} (h0 : c.label ≠ 0)
    (hslot : slots[c.label - 1]? = some (some j)) (hj : bs[j]? = some b) (hb : b.label = c.label)
    (hord : bs.Pairwise fun a b => a.label < b.label) (hx : c.x < wordLimit)
    (hunder : Cell.Under c b.mask (8 * b.xByte) b.y) :
    drawCell slots (bs.map (·.sketch done)).toArray c =
      .ok (bs.map (·.sketch (done ++ [c]))).toArray := by
  have hleft := hunder.left
  have hsketch : Cell.Under c (b.sketch done).mask (8 * b.xByte) b.y :=
    hunder.of_size width_foldl_mark height_foldl_mark
  have hget : (bs.map (·.sketch done)).toArray[j]? = some (b.sketch done) := by
    rw [List.getElem?_toArray, List.getElem?_map, hj]
    rfl
  have hmaskX : require (Word.mul? wordLimit (b.sketch done).xByte 8) = .ok (8 * b.xByte) := by
    rw [Nat.mul_comm 8]
    exact require_mul (by show b.xByte * 8 < wordLimit; omega)
  have hdx : require (Word.sub? c.x (8 * b.xByte)) = .ok (c.x - 8 * b.xByte) := require_sub hleft
  have hdy : require (Word.sub? c.y (b.sketch done).y) = .ok (c.y - b.y) := require_sub hunder.above
  have hput := congrArg require (Raster.put?_eq hsketch.inside true)
  unfold drawCell
  rw [if_neg h0, hslot]
  simp only [require_some, hget, hmaskX, hdx, hdy, hput, bind, Except.bind]
  show Except.ok _ = _
  congr 1
  refine Array.ext_getElem? fun i => ?_
  rw [Array.getElem?_setIfInBounds, List.getElem?_toArray, List.getElem?_toArray, List.getElem?_map,
    List.getElem?_map]
  by_cases hij : j = i
  · subst hij
    have hlt : j < bs.length := (List.getElem?_eq_some_iff.mp hj).1
    rw [if_pos rfl, if_pos (by simpa using hlt), hj, Option.map_some, sketch_concat hb]
    rfl
  · rw [if_neg hij]
    cases hi : bs[i]? with
    | none => rfl
    | some a =>
      have hne : c.label ≠ a.label := hb ▸ label_ne_of_pairwise hord hj hi hij
      rw [Option.map_some, Option.map_some, sketch_concat_of_ne hne]

theorem drawCell_background {slots : Array (Option Nat)} (h0 : c.label = 0)
    (hpos : ∀ b ∈ bs, b.label ≠ 0) : drawCell slots (bs.map (·.sketch done)).toArray c =
      .ok (bs.map (·.sketch (done ++ [c]))).toArray := by
  unfold drawCell
  rw [if_pos h0]
  congr 2
  refine List.map_congr_left fun b hb => (sketch_concat_of_ne fun h => ?_).symm
  exact hpos b hb (h.symm.trans h0)

theorem drawCell_of_mem (h : boxesFrom 1 (labelGroups count g.cells) = .ok bs)
    (hle : ∀ c ∈ g.cells, c.label ≤ count) (hfits : ∀ c ∈ g.cells, Cell.Fits c) (hc : c ∈ g.cells) :
    drawCell (slotsFrom 0 (labelGroups count g.cells)).toArray (bs.map (·.sketch done)).toArray c =
      .ok (bs.map (·.sketch (done ++ [c]))).toArray := by
  by_cases h0 : c.label = 0
  · exact drawCell_background h0 fun b hb => Nat.ne_of_gt (le_label_of_mem_boxesFrom h hb)
  · have hmem : c ∈ labelCells g.cells c.label := mem_labelCells_iff.mpr ⟨hc, rfl⟩
    obtain ⟨d, ds, hds⟩ := List.exists_cons_of_ne_nil (List.ne_nil_of_mem hmem)
    have hgroup : (labelGroups count g.cells)[c.label - 1]? =
        some (labelCells g.cells (c.label - 1 + 1)) :=
      getElem?_labelGroups (by have := hle c hc; omega)
    rw [Nat.sub_add_cancel (Nat.pos_of_ne_zero h0), hds] at hgroup
    obtain ⟨j, b, hslot, hj, hb⟩ := slotsFrom_box (k := 0) h hgroup
    have hlabel : b.label = c.label := by
      rw [label_boxOf hb]
      omega
    rw [Nat.zero_add] at hslot
    exact drawCell_sketch h0 (by rw [List.getElem?_toArray, hslot]) hj hlabel (pairwise_boxesFrom h)
      (Nat.lt_of_succ_lt (hfits c hc).1) (under_boxOf hb (hds ▸ hmem))

/-- **The second pass** draws all cells. -/
theorem foldlM_drawCell (h : boxesFrom 1 (labelGroups count g.cells) = .ok bs)
    (hle : ∀ c ∈ g.cells, c.label ≤ count) (hfits : ∀ c ∈ g.cells, Cell.Fits c)
    (hall : done ++ cells = g.cells) :
    cells.foldlM (drawCell (slotsFrom 0 (labelGroups count g.cells)).toArray)
      (bs.map (·.sketch done)).toArray = .ok (bs.map (·.sketch g.cells)).toArray := by
  induction cells generalizing done with
  | nil =>
    rw [List.append_nil] at hall
    rw [hall]
    rfl
  | cons c cs ih =>
    have hc : c ∈ g.cells := hall ▸ List.mem_append_right done List.mem_cons_self
    rw [List.foldlM_cons, drawCell_of_mem h hle hfits hc]
    exact ih (by rw [← hall, List.append_assoc, List.singleton_append])

/-! ## Extraction -/

/-- **The extraction answers the boxes of the grid**, or its refusal: no step is out of range. -/
theorem extract_eq (hw : g.width < wordLimit) (hh : g.height < wordLimit)
    (hcount : count < wordLimit) :
    g.extract count = (g.boxes count).mapError .refused := by
  have hfits : ∀ c ∈ g.cells, Cell.Fits c := fun c hc => by
    have := LabelGrid.inside_of_mem_cells hc
    exact ⟨by omega, by omega⟩
  have hlen : ([] : List Cell).length + g.cells.length < longLimit := by
    rw [LabelGrid.length_cells, List.length_nil, Nat.zero_add]
    exact mul_lt_longLimit hw hh
  have hfirst := foldlM_tallyCell count hlen
  unfold LabelGrid.extract
  rw [replicate_eq_tallies, hfirst]
  cases hcheck : checkLabels count g.cells with
  | error err =>
    unfold LabelGrid.boxes
    rw [hcheck]
    rfl
  | ok _ =>
    have hle := checkLabels_eq_ok_iff.mp hcheck
    obtain ⟨bs, hbs, hfrom⟩ := boxes_ok hle
    have hgroups : ∀ group ∈ labelGroups count g.cells, ∀ c ∈ group, Cell.Fits c := by
      intro group hg c hc
      obtain ⟨i, -, rfl⟩ := List.mem_map.mp hg
      exact hfits c (mem_labelCells_iff.mp hc).1
    have hpass := foldlM_pass? (t := ⟨#[], #[]⟩) hfrom (by simpa using hcount) hgroups
    have hsecond := foldlM_drawCell hfrom hle hfits (List.nil_append g.cells)
    have hsketch : bs.map (·.sketch g.cells) = bs := by
      refine (List.map_congr_left fun b hb => ?_).trans (List.map_id bs)
      obtain ⟨l, c, cs, -, -, hcells, hbox⟩ := (mem_boxes_iff hfrom).mp hb
      exact sketch_boxOf hbox hcells
    have htallies : (tallies count g.cells).toList = (labelGroups count g.cells).map Tally.of := by
      simp [tallies]
    rw [hsketch] at hsecond
    simp only [Array.empty_append, List.size_toArray, List.length_nil] at hpass
    simp only [Except.bind, bind, List.nil_append, htallies, hpass, hsecond, hbs]
    rfl

end Bitplane.Region
