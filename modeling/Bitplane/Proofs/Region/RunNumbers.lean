import Bitplane.Proofs.Ranks
import Bitplane.LabelGrid.Lemmas
import Bitplane.Region.Run

/-! # Numbered runs

A run starts at a labelled place with nothing labelled to its left in the row. `numberRuns` labels
every labelled place with the number of runs that start up to it (`runsBefore`), so that places have
one label exactly if they lie in one run, and labels grow in raster order.

* `getElem?_numberRow`, `countRuns_row`: a row, and the counts of the rows above it.
* `numberRuns_ok`, `numberRuns_error`: the numbering, and its refusal.
* `RunsNumbered`: what a numbered grid satisfies; `succ_eq`, `prev_of_eq`, `label_le`: its labels
  along a row and in raster order. -/

namespace Bitplane

open Region

variable {g n : LabelGrid} {s : Strategy} {i j x y k last : Nat} {inside : Bool} {row : List Nat}

namespace LabelGrid

/-- The label at a place of the row-by-row list, `0` beyond its end. -/
def labelOf (g : LabelGrid) (i : Nat) : Nat := g.labels[i]?.getD 0

theorem labels_getElem? (hi : i < g.width * g.height) : g.labels[i]? = some (g.labelOf i) := by
  unfold labelOf
  rw [Array.getElem?_eq_getElem (g.size_labels ▸ hi)]
  rfl

theorem place_lt (hx : x < g.width) (hy : y < g.height) : g.width * y + x < g.width * g.height := by
  have h := Nat.mul_le_mul_left g.width hy
  rw [Nat.mul_succ] at h
  omega

theorem row_getElem? (hx : x < g.width) (hy : y < g.height) :
    (g.row y)[x]? = some (g.labelOf (g.width * y + x)) := by
  rw [getElem?_row, if_pos hx, labels_getElem? (place_lt hx hy)]

theorem lt_width_of_row {v : Nat} (h : (g.row y)[x]? = some v) : x < g.width := by
  rw [getElem?_row] at h
  by_contra hge
  rw [if_neg hge] at h
  cases h

/-- **A run starts at the place**: it is labelled, and its left neighbour in the row is not. -/
def RunStartsAt (g : LabelGrid) (i : Nat) : Prop :=
  g.labelOf i ≠ 0 ∧ (i % g.width = 0 ∨ g.labelOf (i - 1) = 0)

instance (g : LabelGrid) : DecidablePred g.RunStartsAt :=
  fun _ => inferInstanceAs (Decidable (_ ∧ _))

theorem runStartsAt_iff (hx : x < g.width) : g.RunStartsAt (g.width * y + x) ↔
    g.labelOf (g.width * y + x) ≠ 0 ∧ (x = 0 ∨ g.labelOf (g.width * y + x - 1) = 0) := by
  unfold RunStartsAt
  rw [Nat.mul_add_mod, Nat.mod_eq_of_lt hx]

/-- The number of runs that start before the place. -/
def runsBefore (g : LabelGrid) (i : Nat) : Nat := Nat.count g.RunStartsAt i

/-- **The number of runs of a grid.** -/
def runCount (g : LabelGrid) : Nat := g.runsBefore (g.width * g.height)

theorem runsBefore_mono (h : i ≤ j) : g.runsBefore i ≤ g.runsBefore j := Nat.count_monotone _ h

end LabelGrid

open LabelGrid

namespace Region

/-! ## Counting and numbering a row -/

theorem countRuns_congr {a b : Nat} (h : a = 0 ↔ b = 0) : ∀ row, countRuns a row = countRuns b row
  | [] => rfl
  | v :: row => by
    unfold countRuns
    simp only [h]

theorem countRuns_concat (v : Nat) : ∀ (row : List Nat) (b : Nat),
    countRuns b (row ++ [v]) =
      countRuns b row + if v ≠ 0 ∧ row.getLast?.getD b = 0 then 1 else 0
  | [], b => by by_cases hv : v = 0 <;> by_cases hb : b = 0 <;> simp [countRuns, hv, hb]
  | u :: row, b => by
    have h : (u :: row).getLast?.getD b = row.getLast?.getD u := by
      cases row <;> simp [List.getLast?_cons]
    rw [List.cons_append, countRuns, countRuns, countRuns_concat v row u, h, Nat.add_assoc]

@[simp] theorem length_numberRow (last : Nat) (inside : Bool) (row : List Nat) :
    (numberRow last inside row).length = row.length := by
  induction row generalizing last inside with
  | nil => rfl
  | cons v row ih =>
    unfold numberRow
    split <;> simp [ih]

/-- **A label of a numbered row** counts the runs that start up to it. -/
theorem getElem?_numberRow (last : Nat) (inside : Bool) (row : List Nat) (k : Nat) :
    (numberRow last inside row)[k]? =
      row[k]?.map fun v =>
        if v = 0 then 0 else last + countRuns inside.toNat (row.take (k + 1)) := by
  induction row generalizing last inside k with
  | nil => simp [numberRow]
  | cons v row ih =>
    unfold numberRow
    by_cases hv : v = 0
    · subst hv
      rw [if_pos rfl]
      cases k with
      | zero => simp
      | succ k =>
        rw [List.getElem?_cons_succ, ih, List.getElem?_cons_succ, List.take_succ_cons]
        simp [countRuns]
    · rw [if_neg hv]
      have hc : ∀ l, countRuns 1 l = countRuns v l := countRuns_congr (by simp [hv])
      cases k with
      | zero => cases inside <;> simp [countRuns, hv]
      | succ k =>
        simp only [List.getElem?_cons_succ, ih, List.take_succ_cons, countRuns, Bool.toNat_true, hc]
        cases inside <;> simp [hv, Nat.add_assoc]

theorem countRuns_take (hy : y < g.height) (hk : k ≤ g.width) :
    countRuns 0 ((g.row y).take k) = Nat.count (fun x => g.RunStartsAt (g.width * y + x)) k := by
  induction k with
  | zero => simp [countRuns]
  | succ k ih =>
    have hlast : ((g.row y).take k).getLast?.getD 0 =
        if k = 0 then 0 else g.labelOf (g.width * y + k - 1) := by
      rw [List.getLast?_eq_getElem?, List.length_take, length_row hy]
      split
      next h => simp [h]
      next h =>
        rw [Nat.min_eq_left (by omega), List.getElem?_take, if_pos (by omega),
          row_getElem? (by omega) hy, Nat.add_sub_assoc (by omega)]
        rfl
    rw [List.take_add_one, row_getElem? (by omega) hy, Option.toList_some, countRuns_concat,
      ih (by omega), hlast, Nat.count_succ]
    congr 1
    refine if_congr ?_ rfl rfl
    rw [runStartsAt_iff (by omega)]
    by_cases hk0 : k = 0 <;> simp [hk0]

theorem countRuns_row (hy : y < g.height) :
    g.runsBefore (g.width * y) + countRuns 0 (g.row y) = g.runsBefore (g.width * (y + 1)) := by
  have h := countRuns_take hy (Nat.le_refl g.width)
  rw [List.take_of_length_le (length_row hy).le] at h
  rw [h, Nat.mul_succ]
  exact (Nat.count_add _ _ _).symm

/-! ## The grid -/

theorem getElem?_sumsBefore (acc : Nat) (l : List Nat) (hy : y < l.length) :
    (sumsBefore acc l)[y]? = some (acc + (l.take y).sum) := by
  induction l generalizing acc y with
  | nil => simp at hy
  | cons v l ih =>
    unfold sumsBefore
    cases y with
    | zero => simp
    | succ y =>
      rw [List.length_cons] at hy
      rw [List.getElem?_cons_succ, ih _ (by omega), List.take_succ_cons, List.sum_cons,
        Nat.add_assoc]

theorem sum_counts (hy : y ≤ g.height) :
    (((List.range g.height).map fun y => countRuns 0 (g.row y)).take y).sum =
      g.runsBefore (g.width * y) := by
  induction y with
  | zero => simp [runsBefore]
  | succ y ih =>
    rw [List.take_add_one, List.sum_append, ih (by omega), List.getElem?_map,
      List.getElem?_range (by omega), ← countRuns_row (by omega)]
    simp

theorem gather_countRuns (s : Strategy) (g : LabelGrid) :
    Rows.gather s g.width (countRuns 0) g.labels =
      (List.range g.height).map fun y => countRuns 0 (g.row y) := by
  rw [Rows.gather_eq, fullRows_labels]
  rfl

theorem foldl_counts (s : Strategy) (g : LabelGrid) :
    (Rows.gather s g.width (countRuns 0) g.labels).foldl (· + ·) 0 = g.runCount := by
  have h := sum_counts (Nat.le_refl g.height)
  have hlen : ((List.range g.height).map fun y => countRuns 0 (g.row y)).length ≤ g.height := by simp
  rw [List.take_of_length_le hlen] at h
  rw [gather_countRuns, ← List.sum_eq_foldl, h]
  rfl

/-- **The runs of `g` are numbered in `n`**: background stays, and every other label is the number
of runs that start up to its place. -/
structure RunsNumbered (g n : LabelGrid) : Prop where
  width_eq : n.width = g.width
  height_eq : n.height = g.height
  labelOf_eq : ∀ i < g.width * g.height,
    n.labelOf i = if g.labelOf i = 0 then 0 else g.runsBefore (i + 1)

theorem getElem?_numberRow_row (hx : x < g.width) (hy : y < g.height) :
    (numberRow (g.runsBefore (g.width * y)) false (g.row y))[x]? =
      some (if g.labelOf (g.width * y + x) = 0 then 0
        else g.runsBefore (g.width * y + x + 1)) := by
  rw [getElem?_numberRow, row_getElem? hx hy, Option.map_some, Bool.toNat_false,
    countRuns_take hy hx, Nat.add_assoc]
  unfold runsBefore
  rw [Nat.count_add]

/-- **Every run gets a number**, unless there are too many. -/
theorem numberRuns_ok (s : Strategy) (h : g.runCount < runLimit) :
    ∃ n, numberRuns s g = .ok (n, g.runCount) ∧ RunsNumbered g n := by
  set f : Nat → List Nat → List Nat := fun y row => numberRow
    ((sumsBefore 0 (Rows.gather s g.width (countRuns 0) g.labels)).toArray[y]?.getD 0) false row
    with hf
  have hkeep : Rows.KeepsLength g.width g.height f := fun y _ row hrow => by
    rw [hf]
    simpa using hrow
  refine ⟨g.update s f, ?_, rfl, rfl, fun i hi => ?_⟩
  · unfold numberRuns
    simp only [foldl_counts]
    rw [if_neg (by omega)]
  · have hx : i % g.width < g.width := Nat.mod_lt i g.width_pos
    have hy : i / g.width < g.height := Nat.div_lt_of_lt_mul hi
    have hlen : i / g.width <
        ((List.range g.height).map fun y => countRuns 0 (g.row y)).length := by
      simpa using hy
    have hoff : (sumsBefore 0 (Rows.gather s g.width (countRuns 0) g.labels)).toArray[i / g.width]? =
        some (g.runsBefore (g.width * (i / g.width))) := by
      rw [List.getElem?_toArray, gather_countRuns, getElem?_sumsBefore _ _ hlen, sum_counts hy.le,
        Nat.zero_add]
    have hrow := row_getElem? (g := g.update s f) (x := i % g.width) (y := i / g.width) hx hy
    rw [row_update hkeep hy, hf] at hrow
    simp only [hoff, Option.getD_some] at hrow
    rw [getElem?_numberRow_row hx hy] at hrow
    simp only [width_update, Nat.div_add_mod, Option.some.injEq] at hrow
    exact hrow.symm

theorem numberRuns_error (s : Strategy) (h : runLimit ≤ g.runCount) :
    numberRuns s g = .error (.imageTooLarge g.width g.height) := by
  unfold numberRuns
  simp only [foldl_counts]
  rw [if_pos h]

/-! ## The labels of a numbered grid -/

namespace RunsNumbered

variable (h : RunsNumbered g n)
include h

theorem row_eq (hy : y < g.height) :
    n.row y = numberRow (g.runsBefore (g.width * y)) false (g.row y) := by
  have hy' : y < n.height := h.height_eq ▸ hy
  refine List.ext_getElem? fun x => ?_
  by_cases hx : x < g.width
  · rw [row_getElem? (h.width_eq ▸ hx) hy', getElem?_numberRow_row hx hy, h.width_eq,
      h.labelOf_eq _ (place_lt hx hy)]
  · have hn : (n.row y).length ≤ x := by
      rw [length_row hy', h.width_eq]
      exact not_lt.mp hx
    have hg : (numberRow (g.runsBefore (g.width * y)) false (g.row y)).length ≤ x := by
      rw [length_numberRow, length_row hy]
      exact not_lt.mp hx
    rw [List.getElem?_eq_none hn, List.getElem?_eq_none hg]

theorem labelOf_of_ne_zero (hi : i < g.width * g.height) (h0 : g.labelOf i ≠ 0) :
    n.labelOf i = g.runsBefore (i + 1) := by
  rw [h.labelOf_eq i hi, if_neg h0]

theorem labelOf_of_start (hi : i < g.width * g.height) (hs : g.RunStartsAt i) :
    n.labelOf i = g.runsBefore i + 1 := by
  rw [h.labelOf_of_ne_zero hi hs.1]
  exact Nat.count_succ_eq_succ_count hs

theorem succ_eq (hi : i + 1 < g.width * g.height) (hcol : (i + 1) % g.width ≠ 0)
    (h0 : g.labelOf i ≠ 0) (h1 : g.labelOf (i + 1) ≠ 0) : n.labelOf (i + 1) = n.labelOf i := by
  rw [h.labelOf_of_ne_zero hi h1, h.labelOf_of_ne_zero (by omega) h0]
  exact Nat.count_succ_eq_count fun hs => hs.2.elim hcol h0

theorem label_le (hij : i ≤ j) (hj : j < g.width * g.height) (h0 : g.labelOf j ≠ 0) :
    n.labelOf i ≤ n.labelOf j := by
  rw [h.labelOf_of_ne_zero hj h0, h.labelOf_eq i (by omega)]
  split
  · exact Nat.zero_le _
  · exact runsBefore_mono (Nat.add_le_add_right hij 1)

theorem label_lt (hij : i < j) (hj : j < g.width * g.height) (hs : g.RunStartsAt j) :
    n.labelOf i < n.labelOf j := by
  rw [h.labelOf_of_start hj hs, h.labelOf_eq i (by omega)]
  split
  · omega
  · exact Nat.lt_succ_of_le (runsBefore_mono (Nat.succ_le_of_lt hij))

/-- A label that occurs again has gone on from the left all the way. -/
theorem prev_of_eq (hij : i < j) (hj : j < g.width * g.height) (h1 : g.labelOf j ≠ 0)
    (heq : n.labelOf i = n.labelOf j) :
    j % g.width ≠ 0 ∧ g.labelOf (j - 1) ≠ 0 ∧ n.labelOf i = n.labelOf (j - 1) := by
  have hns : ¬ g.RunStartsAt j := fun hs => (h.label_lt hij hj hs).ne heq
  have hcol : j % g.width ≠ 0 := fun hc => hns ⟨h1, .inl hc⟩
  have hprev : g.labelOf (j - 1) ≠ 0 := fun hc => hns ⟨h1, .inr hc⟩
  refine ⟨hcol, hprev, ?_⟩
  have hs := h.succ_eq (i := j - 1)
  rw [Nat.sub_add_cancel (by omega)] at hs
  rw [heq, hs hj hcol hprev h1]

theorem exists_start (hi : i < g.width * g.height) (h0 : g.labelOf i ≠ 0) :
    ∃ j ≤ i, g.RunStartsAt j ∧ n.labelOf j = n.labelOf i := by
  induction i with
  | zero => exact ⟨0, le_refl 0, ⟨h0, .inl (Nat.zero_mod _)⟩, rfl⟩
  | succ i ih =>
    by_cases hs : g.RunStartsAt (i + 1)
    · exact ⟨i + 1, le_refl _, hs, rfl⟩
    · have hcol : (i + 1) % g.width ≠ 0 := fun hc => hs ⟨h0, .inl hc⟩
      have hprev : g.labelOf i ≠ 0 := fun hc => hs ⟨h0, .inr hc⟩
      obtain ⟨j, hj, hjs, hjl⟩ := ih (by omega) hprev
      exact ⟨j, by omega, hjs, hjl.trans (h.succ_eq hi hcol hprev h0).symm⟩

theorem labelOf_eq_zero_iff (hi : i < g.width * g.height) : n.labelOf i = 0 ↔ g.labelOf i = 0 := by
  constructor
  · intro hn
    by_contra h0
    obtain ⟨j, hj, hs, hl⟩ := h.exists_start hi h0
    rw [h.labelOf_of_start (by omega) hs] at hl
    omega
  · intro h0
    rw [h.labelOf_eq i hi, if_pos h0]

theorem labelOf_le (hi : i < g.width * g.height) : n.labelOf i ≤ g.runCount := by
  rw [h.labelOf_eq i hi]
  split
  · exact Nat.zero_le _
  · exact runsBefore_mono hi

theorem le_of_mem (hk : k ∈ n.labels) : k ≤ g.runCount := by
  obtain ⟨i, hi, rfl⟩ := Array.mem_iff_getElem.mp hk
  have hplace : i < g.width * g.height := by
    rwa [n.size_labels, h.width_eq, h.height_eq] at hi
  have hle := h.labelOf_le hplace
  unfold LabelGrid.labelOf at hle
  rwa [Array.getElem?_eq_getElem hi, Option.getD_some] at hle

/-- **Every number up to the number of runs is the label of a run.** -/
theorem exists_start_eq (h0 : k ≠ 0) (hk : k ≤ g.runCount) :
    ∃ i < g.width * g.height, g.RunStartsAt i ∧ n.labelOf i = k := by
  obtain ⟨i, hi, hs, hc⟩ := Rank.exists_count_eq h0 hk
  exact ⟨i, hi, hs, (h.labelOf_of_ne_zero hi hs.1).trans hc⟩

end RunsNumbered

end Region

end Bitplane
