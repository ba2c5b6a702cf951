import Bitplane.Proofs.Region.CheckedTables
import Bitplane.Proofs.Region.LabeledComponents
import Bitplane.Proofs.Region.RowPasses

/-! # No step over the runs is out of range

On a grid whose sides are words every row of labels is where it is looked for, and no number that is
counted up along the rows leaves its word.

* `numberRuns_eq`: the runs numbered, or refused.
* `reports_eq`: the reports of a grid. -/

namespace Bitplane.Region.Checked

variable {g n : LabelGrid} {c : Connectivity} {k x y : Nat}

/-! ## Runs -/

variable {row pre : List Nat} {last : Nat} {inside : Bool}

theorem startsRun_eq (v : Nat) : startsRun (pre ++ v :: row).toArray pre.length v =
    .ok (decide (v ≠ 0 ∧ pre.getLast?.getD 0 = 0)) := by
  unfold startsRun
  by_cases hv : v = 0
  · rw [if_pos hv, decide_eq_false fun h => h.1 hv]
  · rw [if_neg hv]
    by_cases hpre : pre.length = 0
    · rw [if_pos hpre, List.length_eq_zero_iff.mp hpre, decide_eq_true ⟨hv, rfl⟩]
    · have hlt : pre.length - 1 < pre.length := by omega
      rw [if_neg hpre, List.getLast?_eq_getElem?, List.getElem?_toArray,
        List.getElem?_append_left hlt, List.getElem?_eq_getElem hlt, require_some, ok_bind]
      simp only [hv, ne_eq, not_false_eq_true, true_and, Option.getD_some]
      rfl

/-- **The runs of a row are counted** a pixel at a time. -/
theorem foldlM_countPixel (pre row : List Nat) (k : Nat) (h : k + row.length < longLimit) :
    (row.zipIdx pre.length).foldlM (countPixel (pre ++ row).toArray) k =
      .ok (k + Region.countRuns (pre.getLast?.getD 0) row) := by
  induction row generalizing pre k with
  | nil => rfl
  | cons v row ih =>
    rw [List.length_cons] at h
    have hnext := ih (pre ++ [v]) (k + if v ≠ 0 ∧ pre.getLast?.getD 0 = 0 then 1 else 0)
      (by split <;> omega)
    rw [List.length_append, List.length_singleton, ← List.append_cons, List.getLast?_concat,
      Option.getD_some, Nat.add_assoc] at hnext
    have hstep : countPixel (pre ++ v :: row).toArray k (v, pre.length) =
        .ok (k + if v ≠ 0 ∧ pre.getLast?.getD 0 = 0 then 1 else 0) := by
      unfold countPixel
      rw [startsRun_eq, ok_bind]
      by_cases hs : v ≠ 0 ∧ pre.getLast?.getD 0 = 0
      · rw [decide_eq_true hs, if_pos rfl, if_pos hs, require_add (by omega)]
      · rw [decide_eq_false hs, if_neg Bool.false_ne_true, if_neg hs]
        rfl
    rw [List.zipIdx_cons, List.foldlM_cons, hstep, ok_bind, hnext]
    rfl

theorem countRuns_eq (h : row.length < longLimit) :
    countRuns row = .ok (Region.countRuns 0 row) := by
  have := foldlM_countPixel [] row 0 (by omega)
  rwa [Nat.zero_add] at this

theorem foldlM_addCount (offsets : Array Nat) (total : Nat) (counts : List Nat)
    (h : total + counts.sum < longLimit) : counts.foldlM addCount (offsets, total) =
      .ok (offsets ++ (sumsBefore total counts).toArray, total + counts.sum) := by
  induction counts generalizing offsets total with
  | nil => exact congrArg Except.ok (by simp [sumsBefore])
  | cons k counts ih =>
    rw [List.sum_cons] at h
    have hstep : addCount (offsets, total) k = .ok (offsets.push total, total + k) := by
      unfold addCount
      rw [require_add (by omega)]
      rfl
    rw [List.foldlM_cons, hstep, ok_bind, ih _ _ (by omega), List.sum_cons, sumsBefore,
      Nat.add_assoc]
    simp

theorem numberRow_eq (h : last + Region.countRuns inside.toNat row < wordLimit) :
    numberRow last inside row = .ok (Region.numberRow last inside row) := by
  induction row generalizing last inside with
  | nil => rfl
  | cons v row ih =>
    unfold numberRow Region.numberRow
    unfold Region.countRuns at h
    by_cases hv : v = 0
    · subst hv
      rw [if_pos rfl, if_pos rfl]
      simp only [ne_eq, not_true_eq_false, false_and, if_false, Nat.zero_add] at h
      have hrest : numberRow last false row = .ok (Region.numberRow last false row) := ih h
      rw [hrest]
      rfl
    · have hc : Region.countRuns true.toNat row = Region.countRuns v row :=
        countRuns_congr (by simp [hv]) row
      rw [if_neg hv, if_neg hv]
      cases inside with
      | true =>
        rw [if_neg (by simp), Nat.zero_add, ← hc] at h
        have hrest := ih h
        simp only [if_true, ok_bind, hrest]
        rfl
      | false =>
        rw [if_pos ⟨hv, rfl⟩, ← hc, ← Nat.add_assoc] at h
        have hrest := ih h
        rw [if_neg Bool.false_ne_true, require_add (by omega)]
        simp only [ok_bind, hrest]
        rfl

/-! ## The numbered grid -/

theorem tryGather_countRuns (hw : g.width < wordLimit) (s : Strategy) :
    Rows.tryGather s g.width countRuns g.labels =
      .ok ((List.range g.height).map fun y => Region.countRuns 0 (g.row y)) := by
  rw [Rows.tryGather_eq fun y hy => countRuns_eq ?_, gather_countRuns]
  rw [Rows.length_rowOf hy]
  exact hw.trans (by decide)

theorem numberRowAt_eq (hruns : g.runCount < runLimit) (hy : y < g.height) :
    numberRowAt (sumsBefore 0 ((List.range g.height).map fun y =>
      Region.countRuns 0 (g.row y))).toArray y (g.row y) =
      .ok (Region.numberRow ((sumsBefore 0 ((List.range g.height).map fun y =>
        Region.countRuns 0 (g.row y))).toArray[y]?.getD 0) false (g.row y)) := by
  have hoff : (sumsBefore 0 ((List.range g.height).map fun y =>
      Region.countRuns 0 (g.row y))).toArray[y]? = some (g.runsBefore (g.width * y)) := by
    rw [List.getElem?_toArray, getElem?_sumsBefore _ _ (by simpa using hy), sum_counts hy.le,
      Nat.zero_add]
  have hrow := countRuns_row hy
  have hend : g.runsBefore (g.width * (y + 1)) ≤ g.runCount :=
    LabelGrid.runsBefore_mono (Nat.mul_le_mul_left _ hy)
  have hlimit : runLimit < wordLimit := by decide
  unfold numberRowAt
  rw [require_getElem hoff, ok_bind, require_fit (by omega), ok_bind, hoff, Option.getD_some]
  exact numberRow_eq (by rw [Bool.toNat_false]; omega)

/-- **The runs are numbered or refused as ever**: no count, offset or label leaves its word. -/
theorem numberRuns_eq (hw : g.width < wordLimit) (hh : g.height < wordLimit) (s : Strategy) :
    numberRuns s g = (Region.numberRuns s g).mapError .refused := by
  have hsum := sum_counts (Nat.le_refl g.height)
  rw [List.take_of_length_le (by simp)] at hsum
  have hle : g.runsBefore (g.width * g.height) ≤ g.width * g.height := Nat.count_le _
  have hsize := mul_lt_longLimit hw hh
  have hadd := foldlM_addCount #[] 0
    ((List.range g.height).map fun y => Region.countRuns 0 (g.row y)) (by omega)
  rw [hsum, Array.empty_append, Nat.zero_add] at hadd
  unfold numberRuns Region.numberRuns
  rw [tryGather_countRuns hw, ok_bind, hadd, ok_bind]
  simp only [foldl_counts]
  simp only [gather_countRuns]
  change (if runLimit ≤ g.runCount then _ else _) = _
  by_cases hruns : runLimit ≤ g.runCount
  · rw [if_pos hruns, if_pos hruns]
    rfl
  · have hkeep : Rows.KeepsLength g.width g.height fun y row => Region.numberRow
        ((sumsBefore 0 ((List.range g.height).map fun y =>
          Region.countRuns 0 (g.row y))).toArray[y]?.getD 0) false row :=
      fun y _ row hrow => (length_numberRow _ _ _).trans hrow
    rw [if_neg hruns, if_neg hruns,
      updateLabels_eq hkeep fun y hy => numberRowAt_eq (not_le.mp hruns) hy]
    rfl

/-! ## Reports -/

theorem require_labels (hy : y < g.height) : require (g.row? y) = .ok (g.row y) := by
  rw [LabelGrid.row?, if_pos hy, require]

theorem runReports_eq {above : List Nat} {t : Run} (ht : t.In 0 row)
    (hlen : above.length = row.length) :
    runReports c (some above.toArray) t = .ok (t.reports (touched c above.toArray t)) := by
  have hstop := ht.stop_le
  have hstart := ht.start_lt
  have hw : (reach c above.toArray.size t).1 ≤ (reach c above.toArray.size t).2 ∧
      (reach c above.toArray.size t).2 ≤ above.toArray.size := by
    rw [List.size_toArray]
    cases c <;> simp only [reach] <;> omega
  unfold runReports touched slice?
  simp only
  rw [if_pos hw]
  rfl

theorem runReports_none (t : Run) : runReports c none t = .ok (t.reports (touched c #[] t)) := by
  unfold runReports touched
  simp [runLabels]

theorem rowReports_eq (hy : y < g.height) : rowReports c g y =
    .ok (Region.rowReports c (if y = 0 then #[] else (g.row (y - 1)).toArray) (g.row y)) := by
  have hlen : (g.row y).length = g.width := LabelGrid.length_row hy
  unfold rowReports Region.rowReports
  rw [require_labels hy, ok_bind, List.flatMap_def]
  by_cases h0 : y = 0
  · have hruns := mapM_ok (l := runsOf 0 (g.row y)) fun t _ => runReports_none (c := c) t
    rw [if_pos h0, if_pos h0]
    simp only [ok_bind, hruns]
    rfl
  · have hlen' : (g.row (y - 1)).length = g.width := LabelGrid.length_row (by omega)
    have hruns := mapM_ok (l := runsOf 0 (g.row y)) fun t ht =>
      runReports_eq (c := c) (in_of_mem_runsOf ht) (hlen'.trans hlen.symm)
    rw [if_neg h0, if_neg h0, require_labels (by omega)]
    simp only [ok_bind, hruns]
    rfl

/-- **The runs are read back, and all they touch,** without a step out of range. -/
theorem reports_eq (c : Connectivity) (g : LabelGrid) : reports c g = .ok (Region.reports c g) := by
  unfold reports Region.reports
  rw [mapM_ok fun y hy => rowReports_eq (List.mem_range.mp hy), ok_bind, List.flatMap_def]
  rfl

/-! ## Labels looked up -/

theorem lookUp_eq {table : Array Nat} (h : ∀ l ∈ g.labels, l < table.size) :
    updateLabels s (fun _ row => lookUp table row) g =
      .ok (g.update s fun _ row => row.map fun l => table[l]?.getD 0) := by
  refine updateLabels_eq (fun _ _ row hrow => (List.length_map _).trans hrow) fun y _ => ?_
  refine mapM_ok fun l hl => ?_
  have hlt := h l (LabelGrid.mem_labels_of_mem_row hl)
  rw [Array.getElem?_eq_getElem hlt]
  rfl

end Bitplane.Region.Checked
