import Mathlib.Data.List.Sort
import Bitplane.Proofs.Region.CheckedRows
import Bitplane.Proofs.Region.MaximalRuns
import Bitplane.Region.LabelingLoops

/-! # The walk over the runs

The runs of a grid are found by their columns, from the top and from the left, and each hands to a
table what it touches in the row above.

* `runsOf_cons`, `runLabels_eq_map_label`: a row falls into its first run and the rest.
* `RowWalk.go_eq`, `mergeRuns_eq`: the walk ends, and hands over the reports of the grid, whatever
  the grid and the table.
* `pairwise_touched`: in a numbered row the touched labels grow from the left.
* `labels_in_turn`, `reports_in_turn`: the runs of a numbered grid are met in the order of their
  labels.
* `runs_handed_over_in_turn`: what is handed over, run by run. -/

namespace Bitplane.Region

open LabelGrid Point

variable {c : Connectivity} {g n : LabelGrid} {t : Run} {row pre : List Nat}
  {k l o u v x y last : Nat}
  {inside : Bool} {s : Strategy}

/-! ## The first run of a row -/

theorem runsOf_cons (hv : v ≠ 0) (x : Nat) (row : List Nat) :
    runsOf x (v :: row) = ⟨v, x, x + 1 + (row.takeWhile (· = v)).length⟩ ::
      runsOf (x + 1 + (row.takeWhile (· = v)).length) (row.dropWhile (· = v)) := by
  induction row generalizing x with
  | nil => simp [runsOf, consPixel, hv]
  | cons w row ih =>
    rw [runsOf, if_neg hv]
    by_cases hw : w = v
    · subst hw
      rw [ih (x + 1), consPixel, if_pos ⟨rfl, rfl⟩]
      simp only [decide_true, List.takeWhile_cons_of_pos, List.length_cons,
        List.dropWhile_cons_of_pos]
      rw [Nat.add_assoc (x + 1), Nat.add_comm 1]
    · simp only [hw, decide_false, Bool.false_eq_true, not_false_eq_true,
        List.takeWhile_cons_of_neg, List.length_nil, Nat.add_zero, List.dropWhile_cons_of_neg]
      -- the run behind it is not lengthened: it starts later, or is of another label
      by_cases h0 : w = 0
      · subst h0
        refine consPixel_of_lt fun u hu => ?_
        rw [runsOf, if_pos rfl] at hu
        exact (in_of_mem_runsOf hu).le_start
      · obtain ⟨t, ts, he, hl, -⟩ := exists_consPixel_eq (x + 1) w (runsOf (x + 1 + 1) row)
        rw [runsOf, if_neg h0, he, consPixel, if_neg fun hc => hw (hl.symm.trans hc.1)]

theorem runLabels_dropWhile (v : Nat) (row : List Nat) :
    runLabels v row = runLabels 0 (row.dropWhile (· = v)) := by
  induction row with
  | nil => rfl
  | cons w row ih =>
    by_cases hw : w = v
    · subst hw
      rw [runLabels, if_neg fun hc => hc.2 rfl, ih]
      simp
    · simp only [hw, decide_false, Bool.false_eq_true, not_false_eq_true,
        List.dropWhile_cons_of_neg]
      rw [runLabels, runLabels]
      by_cases h0 : w = 0
      · rw [if_neg fun hc => hc.1 h0, if_neg fun hc => hc.1 h0]
      · rw [if_pos ⟨h0, hw⟩, if_pos ⟨h0, h0⟩]

/-- **The labels of a stretch are those of its runs.** -/
theorem runLabels_eq_map_label (x : Nat) (row : List Nat) :
    runLabels 0 row = (runsOf x row).map Run.label := by
  induction hk : row.length using Nat.strongRecOn generalizing x row with
  | ind k ih =>
    subst hk
    cases row with
    | nil => rfl
    | cons v row =>
      by_cases hv : v = 0
      · subst hv
        rw [runLabels, if_neg fun hc => hc.1 rfl, runsOf, if_pos rfl]
        exact ih _ (by simp) (x + 1) row rfl
      · have hle := (List.dropWhile_suffix (fun w => decide (w = v)) (l := row)).length_le
        rw [runsOf_cons hv, runLabels, if_pos ⟨hv, hv⟩, runLabels_dropWhile, List.map_cons]
        rw [ih _ (by rw [List.length_cons]; omega) _ _ rfl]

/-! ## The walk -/

section

variable {E : Type}

theorem foldlM_flatMap {α : Type} {take : E → Report → Loop E} {step : E → α → Loop E}
    {rs : α → List Report} {l : List α} (h : ∀ a ∈ l, ∀ e, step e a = (rs a).foldlM take e)
    (e : E) :
    l.foldlM step e = (l.flatMap rs).foldlM take e := by
  induction l generalizing e with
  | nil => rfl
  | cons a l ih =>
    rw [List.foldlM_cons, List.flatMap_cons, List.foldlM_append, h a (List.mem_cons_self ..)]
    exact bind_congr fun e => ih (fun b hb => h b (List.mem_cons_of_mem a hb)) e

namespace RowWalk

theorem stop_eq {w : RowWalk E} (hw : w.row = (pre ++ row).toArray) (v : Nat) :
    w.stop v pre.length = return (pre.length + (row.takeWhile (· = v)).length) := by
  induction row generalizing pre with
  | nil =>
    have hget : w.row[pre.length]? = none := by simp [hw]
    rw [stop, hget]
    rfl
  | cons u row ih =>
    have hget : w.row[pre.length]? = some u := by simp [hw]
    rw [stop, hget]
    simp only
    by_cases hu : u = v
    · subst hu
      have hnext := ih (hw.trans (congrArg List.toArray (List.append_cons pre u row)))
      rw [List.length_append, List.length_singleton] at hnext
      rw [if_pos rfl, hnext]
      simp only [decide_true, List.takeWhile_cons_of_pos, List.length_cons]
      rw [Nat.add_assoc, Nat.add_comm 1]
    · rw [if_neg hu]
      simp [hu]

/-- **The labels of a stretch are joined in turn**, each run once. -/
theorem joinAbove_eq (w : RowWalk E) (l last : Nat) (ups : List Nat) (e : E) (joined : Bool) :
    w.joinAbove l last ups e joined = (do
      let e ← ((runLabels last ups).map (Report.joins l)).foldlM w.take e
      return (e, joined || !(runLabels last ups).isEmpty)) := by
  induction ups generalizing last e joined with
  | nil => simp [joinAbove, runLabels]
  | cons up ups ih =>
    unfold joinAbove runLabels
    by_cases h : up ≠ 0 ∧ up ≠ last
    · rw [if_pos h, if_pos h, List.map_cons, List.foldlM_cons, bind_assoc]
      refine bind_congr fun e => ?_
      rw [ih]
      simp
    · rw [if_neg h, if_neg h]
      exact ih ..

theorem hand_eq {w : RowWalk E} {rs : List Report} (e : E)
    (h : Checked.runReports w.connectivity w.above t = .ok rs) :
    w.hand e t = rs.foldlM w.take e := by
  unfold Checked.runReports at h
  unfold hand
  cases hw : w.above with
  | none =>
    simp only [hw] at h
    rw [← Except.ok.inj h, Run.reports, List.foldlM_cons]
    simp
  | some above =>
    cases hs : Checked.slice? above (reach w.connectivity above.size t).1
        (reach w.connectivity above.size t).2 with
    | none =>
      simp only [hw, hs] at h
      cases h
    | some ups =>
      simp only [hw, hs] at h ⊢
      rw [← Except.ok.inj h]
      show (w.joinAbove t.label 0 ups e false >>= fun q =>
        if q.2 then return q.1 else w.take q.1 (.opens t.label)) = _
      rw [joinAbove_eq, bind_assoc]
      cases runLabels 0 ups with
      | nil =>
        rw [Run.reports, List.foldlM_cons]
        simp
      | cons u us =>
        show _ = ((u :: us).map (Report.joins t.label)).foldlM w.take e
        simp

/-- **The walk along a row takes its runs in turn.** -/
theorem go_eq {w : RowWalk E} (pre row : List Nat) (hw : w.row = (pre ++ row).toArray) (e : E) :
    w.go e pre.length = (runsOf pre.length row).foldlM w.hand e := by
  induction hk : row.length using Nat.strongRecOn generalizing pre row e with
  | ind k ih =>
    subst hk
    cases row with
    | nil =>
      have hget : w.row[pre.length]? = none := by simp [hw]
      rw [go, hget]
      rfl
    | cons v row =>
      have hget : w.row[pre.length]? = some v := by simp [hw]
      rw [go, hget]
      by_cases hv : v = 0
      · subst hv
        have hrest := ih _ (Nat.lt_succ_self _) _ _
          (hw.trans (congrArg List.toArray (List.append_cons pre 0 row))) e rfl
        rw [List.length_append, List.length_singleton] at hrest
        rw [runsOf, if_pos rfl]
        exact hrest
      · have hle := (List.dropWhile_suffix (fun u => decide (u = v)) (l := row)).length_le
        have hsplit : pre ++ v :: row =
            (pre ++ v :: row.takeWhile (· = v)) ++ row.dropWhile (· = v) := by
          rw [List.append_assoc, List.cons_append, List.takeWhile_append_dropWhile]
        have hrest := fun e => ih _ (Nat.lt_succ_of_le hle) _ _
          (hw.trans (congrArg List.toArray hsplit)) e rfl
        have hstop : pre.length + ((v :: row).takeWhile (· = v)).length =
            pre.length + 1 + (row.takeWhile (· = v)).length := by
          simp only [decide_true, List.takeWhile_cons_of_pos, List.length_cons]
          omega
        rw [List.length_append, List.length_cons, Nat.add_comm (row.takeWhile _).length 1,
          ← Nat.add_assoc] at hrest
        simp only
        rw [if_neg hv, stop_eq hw, hstop, pure_bind, runsOf_cons hv, List.foldlM_cons]
        exact bind_congr hrest

end RowWalk

variable (take : E → Report → Loop E)

theorem mergeRow_eq (c : Connectivity) (hy : y < g.height) (e : E) :
    mergeRow take c g e y =
      (rowReports c (if y = 0 then #[] else (g.row (y - 1)).toArray) (g.row y)).foldlM take e := by
  have hrow : ∀ {z}, z < g.height → g.row? z = some (g.row z) := fun hz => if_pos hz
  unfold mergeRow rowReports
  rw [hrow hy, Loop.need_some_bind]
  by_cases h0 : y = 0
  · rw [if_pos h0, if_pos h0]
    refine (RowWalk.go_eq [] _ rfl e).trans (foldlM_flatMap (fun t _ e => ?_) e)
    exact RowWalk.hand_eq e (Checked.runReports_none t)
  · have hlen : (g.row (y - 1)).length = (g.row y).length := by
      rw [length_row hy, length_row (by omega)]
    rw [if_neg h0, if_neg h0, hrow (by omega), Loop.need_some_bind]
    refine (RowWalk.go_eq [] _ rfl e).trans (foldlM_flatMap (fun t ht e => ?_) e)
    exact RowWalk.hand_eq e (Checked.runReports_eq (in_of_mem_runsOf ht) hlen)

/-- **The walk over a grid hands over its reports**, all of them in turn and nothing else. -/
theorem mergeRuns_eq (c : Connectivity) (g : LabelGrid) (e : E) :
    mergeRuns take c g e = (reports c g).foldlM take e :=
  foldlM_flatMap (fun _ hy e => mergeRow_eq take c (List.mem_range.mp hy) e) e

end

/-! ## Touched runs of a numbered row -/

theorem take_numberRow (last : Nat) (inside : Bool) (row : List Nat) (k : Nat) :
    (numberRow last inside row).take k = numberRow last inside (row.take k) := by
  induction row generalizing last inside k with
  | nil => simp [numberRow]
  | cons v row ih =>
    cases k with
    | zero => simp [numberRow]
    | succ k =>
      rw [List.take_succ_cons, numberRow, numberRow]
      split <;> rw [List.take_succ_cons, ih]

/-- **A numbered row cut off is a numbered row**, which may start inside a run. -/
theorem exists_drop_numberRow (last : Nat) (inside : Bool) (row : List Nat) (k : Nat)
    (h : inside = true → last ≠ 0) :
    ∃ (last' : Nat) (inside' : Bool), (inside' = true → last' ≠ 0) ∧
      (numberRow last inside row).drop k = numberRow last' inside' (row.drop k) := by
  induction row generalizing last inside k with
  | nil => exact ⟨last, inside, h, by simp [numberRow]⟩
  | cons v row ih =>
    cases k with
    | zero => exact ⟨last, inside, h, rfl⟩
    | succ k =>
      rw [numberRow]
      split
      · exact ih last false k (by simp)
      · cases inside with
        | true => exact ih last true k h
        | false => exact ih (last + 1) true k (by simp)

/-- **The labels of a stretch of a numbered row grow from the left.** -/
theorem pairwise_runLabels_numberRow (h : inside = true → last ≠ 0) (row : List Nat) :
    (runLabels 0 (numberRow last inside row)).Pairwise (· < ·) := by
  rw [runLabels_eq_map_label 0, map_label_runsOf_numberRow row 0 last inside h]
  split
  · rw [List.singleton_append, List.pairwise_cons]
    refine ⟨fun u hu => ?_, List.pairwise_lt_range'⟩
    have := (List.mem_range'_1.mp hu).1
    omega
  · exact List.pairwise_lt_range'

theorem exists_extract_numberRow (last : Nat) (row : List Nat) (lo hi : Nat) :
    ∃ (last' : Nat) (inside : Bool) (row' : List Nat), (inside = true → last' ≠ 0) ∧
      ((numberRow last false row).toArray.extract lo hi).toList = numberRow last' inside row' := by
  obtain ⟨last', inside, h, hdrop⟩ := exists_drop_numberRow last false row lo (by simp)
  refine ⟨last', inside, (row.drop lo).take (hi - lo), h, ?_⟩
  rw [← take_numberRow, ← hdrop]
  simp

theorem pairwise_touched (c : Connectivity) (last : Nat) (row : List Nat) (t : Run) :
    (touched c (numberRow last false row).toArray t).Pairwise (· < ·) := by
  unfold touched
  simp only
  obtain ⟨last', inside, row', h, heq⟩ := exists_extract_numberRow last row
    (reach c (numberRow last false row).toArray.size t).1
    (reach c (numberRow last false row).toArray.size t).2
  rw [heq]
  exact pairwise_runLabels_numberRow h row'

/-! ## Runs in turn -/

/-- The row above row `y`, empty for the first. -/
def rowAbove (g : LabelGrid) (y : Nat) : Array Nat := if y = 0 then #[] else (g.row (y - 1)).toArray

theorem reports_eq_flatMap (c : Connectivity) (g : LabelGrid) : reports c g =
    (List.range g.height).flatMap fun y =>
      (runsOf 0 (g.row y)).flatMap fun t => t.reports (touched c (rowAbove g y) t) := rfl

/-- What a run labelled `l` reports when it touches the given labels. -/
def callsOf (l : Nat) (us : List Nat) : List Report :=
  if us = [] then [.opens l] else us.map (.joins l)

theorem reports_eq_callsOf (t : Run) (us : List Nat) : t.reports us = callsOf t.label us := by
  cases us <;> rfl

/-- The labels that the run labelled `l` is reported to join. -/
def joinedTo (c : Connectivity) (n : LabelGrid) (runs l : Nat) : List Nat :=
  (List.range' 1 runs).filter fun u => Report.joins l u ∈ reports c n

/-- **The runs that the run labelled `l` touches**: those of the row above with a pixel adjacent to
one of its own, each once and from left to right. All are labelled below it. -/
structure TouchedRuns (c : Connectivity) (n : LabelGrid) (l : Nat) (us : List Nat) : Prop where
  mem_iff : ∀ u, u ∈ us ↔ u ≠ 0 ∧ ∃ x x' y, n.get? x (y + 1) = some l ∧ n.get? x' y = some u ∧
    Adjacent c ⟨x, y + 1⟩ ⟨x', y⟩
  nodup : us.Nodup
  leftToRight : us.Pairwise fun u v => ∀ x y x' y', n.get? x y = some u → n.get? x' y' = some v →
    y = y' ∧ x < x'
  lt : ∀ u ∈ us, u < l

theorem joins_mem_reports_iff_get? : Report.joins l o ∈ reports c n ↔ l ≠ 0 ∧ o ≠ 0 ∧
    ∃ x x' y, n.get? x (y + 1) = some l ∧ n.get? x' y = some o ∧ Adjacent c ⟨x, y + 1⟩ ⟨x', y⟩ := by
  rw [joins_mem_reports_iff]
  refine and_congr_right fun _ => and_congr_right fun _ => ?_
  constructor
  · rintro ⟨x, hx, x', hx', y, hy, rfl, rfl, hadj⟩
    exact ⟨x, x', y, get?_labelOf hx hy, get?_labelOf hx' (Nat.lt_of_succ_lt hy), hadj⟩
  · rintro ⟨x, x', y, hl, ho, hadj⟩
    have hin := get?_isSome_iff.mp (by rw [hl]; rfl)
    have hin' := get?_isSome_iff.mp (by rw [ho]; rfl)
    rw [get?_labelOf hin.1 hin.2, Option.some.injEq] at hl
    rw [get?_labelOf hin'.1 hin'.2, Option.some.injEq] at ho
    exact ⟨x, hin.1, x', hin'.1, y, hin.2, hl, ho, hadj⟩

theorem eq_of_nodup_flatMap {α β : Type} {l : List α} {f : α → List β} (h : (l.flatMap f).Nodup)
    {a b : α} (ha : a ∈ l) (hb : b ∈ l) {x : β} (hx : x ∈ f a) (hx' : x ∈ f b) : a = b := by
  by_contra hne
  have hsymm : Std.Symm (Function.onFun List.Disjoint f) := ⟨fun _ _ hd => List.Disjoint.symm hd⟩
  exact (List.nodup_flatMap.mp h).2.forall ha hb hne hx hx'

theorem runsNumbered_of_ok {runs : Nat} (h : numberRuns s g = .ok (n, runs)) :
    RunsNumbered g n ∧ runs = g.runCount := by
  rcases Nat.lt_or_ge g.runCount runLimit with hlt | hge
  · obtain ⟨m, hm, hnum⟩ := numberRuns_ok s hlt
    obtain ⟨rfl, rfl⟩ := Prod.mk.inj (Except.ok.inj (h.symm.trans hm))
    exact ⟨hnum, rfl⟩
  · rw [numberRuns_error s hge] at h
    cases h

namespace RunsNumbered

variable (h : RunsNumbered g n)
include h

/-- **The runs of the rows have the labels `1, 2, …` in turn.** -/
theorem labels_in_turn (hy : y ≤ g.height) :
    (List.range y).flatMap (fun y => (runsOf 0 (n.row y)).map Run.label) =
      List.range' 1 (g.runsBefore (g.width * y)) := by
  induction y with
  | zero => simp [runsBefore]
  | succ y ih =>
    have hrow : (runsOf 0 (n.row y)).map Run.label =
        List.range' (1 + g.runsBefore (g.width * y)) (countRuns 0 (g.row y)) := by
      rw [h.row_eq hy, map_label_runsOf_numberRow _ _ _ false (by simp), Nat.add_comm 1]
      simp
    rw [List.range_succ, List.flatMap_append, ih (by omega), List.flatMap_singleton, hrow,
      ← countRuns_row hy]
    have happend :=
      @List.range'_append 1 (g.runsBefore (g.width * y)) (countRuns 0 (g.row y)) 1
    rwa [Nat.one_mul] at happend

theorem eq_of_label_eq {t' : Run} {y' : Nat} (hy : y < g.height) (hy' : y' < g.height)
    (ht : t ∈ runsOf 0 (n.row y)) (ht' : t' ∈ runsOf 0 (n.row y')) (heq : t.label = t'.label) :
    y = y' ∧ t = t' := by
  have hnd : ((List.range g.height).flatMap fun y => (runsOf 0 (n.row y)).map Run.label).Nodup := by
    rw [h.labels_in_turn (le_refl _)]
    exact List.nodup_range'
  rw [← List.mem_range] at hy hy'
  obtain rfl : y = y' := eq_of_nodup_flatMap hnd hy hy' (List.mem_map_of_mem ht)
    (heq ▸ List.mem_map_of_mem ht')
  exact ⟨rfl, List.inj_on_of_nodup_map ((List.nodup_flatMap.mp hnd).1 y hy) ht ht' heq⟩

/-- **A run touches what it is reported to join.** -/
theorem mem_touched_iff_joins (hy : y < g.height) (ht : t ∈ runsOf 0 (n.row y)) :
    u ∈ touched c (rowAbove n y) t ↔ Report.joins t.label u ∈ reports c n := by
  rw [reports_eq_flatMap]
  simp only [List.mem_flatMap, List.mem_range, joins_mem_run_reports, h.height_eq]
  constructor
  · exact fun hu => ⟨y, hy, t, ht, rfl, hu⟩
  · rintro ⟨y', hy', t', ht', heq, hu⟩
    obtain ⟨rfl, rfl⟩ := h.eq_of_label_eq hy hy' ht ht' heq.symm
    exact hu

theorem mem_joinedTo_iff (c : Connectivity) (l : Nat) :
    u ∈ joinedTo c n g.runCount l ↔ Report.joins l u ∈ reports c n := by
  unfold joinedTo
  rw [List.mem_filter, List.mem_range'_1, decide_eq_true_iff]
  refine and_iff_right_of_imp fun hu => ?_
  obtain ⟨-, h0, -, -, x, hx, y, hy, -, hu, -⟩ := joins_mem_reports_iff.mp hu
  have hle := h.labelOf_le (i := g.width * y + x) (place_lt (h.width_eq ▸ hx) (by
    rw [← h.height_eq]
    omega))
  rw [← h.width_eq, hu] at hle
  omega

theorem touched_eq_joinedTo (c : Connectivity) (hy : y < g.height) (ht : t ∈ runsOf 0 (n.row y)) :
    touched c (rowAbove n y) t = joinedTo c n g.runCount t.label := by
  have hpair : (touched c (rowAbove n y) t).Pairwise (· < ·) := by
    unfold rowAbove
    by_cases h0 : y = 0
    · rw [if_pos h0]
      simp [touched, runLabels]
    · rw [if_neg h0, h.row_eq (by omega)]
      exact pairwise_touched ..
  refine hpair.eq_of_mem_iff (List.Pairwise.filter _ List.pairwise_lt_range') fun u => ?_
  exact (h.mem_touched_iff_joins hy ht).trans (h.mem_joinedTo_iff c t.label).symm

/-- **The reports of a numbered grid, run by run**: each opens, or joins the runs it touches. -/
theorem reports_in_turn (c : Connectivity) : reports c n =
    (List.range' 1 g.runCount).flatMap fun l => callsOf l (joinedTo c n g.runCount l) := by
  have hrow : ∀ y ∈ List.range g.height,
      ((runsOf 0 (n.row y)).flatMap fun t => t.reports (touched c (rowAbove n y) t)) =
        ((runsOf 0 (n.row y)).map Run.label).flatMap fun l =>
          callsOf l (joinedTo c n g.runCount l) := by
    intro y hy
    rw [List.flatMap_map]
    refine List.flatMap_congr fun t ht => ?_
    rw [h.touched_eq_joinedTo c (List.mem_range.mp hy) ht, reports_eq_callsOf]
  rw [reports_eq_flatMap, h.height_eq, List.flatMap_congr hrow, ← List.flatMap_assoc,
    h.labels_in_turn (le_refl _)]
  rfl

/-! ## What a run touches -/

theorem setAt_of_get? (hl : n.get? x y = some l) (h0 : l ≠ 0) : g.SetAt x y := by
  have hin : x < n.width ∧ y < n.height := get?_isSome_iff.mp (by rw [hl]; rfl)
  rw [h.width_eq, h.height_eq] at hin
  rw [h.get?_eq_labelOf hin.1 hin.2, Option.some.injEq] at hl
  rw [setAt_iff hin.1 hin.2, Ne, ← h.labelOf_eq_zero_iff (place_lt hin.1 hin.2), hl]
  exact h0

theorem row_eq_of_get? {x' y' : Nat} (hl : n.get? x y = some l) (hl' : n.get? x' y' = some l)
    (h0 : l ≠ 0) : y = y' :=
  ((h.runsLabeled.get?_eq_iff x y x' y' (h.setAt_of_get? hl h0) (h.setAt_of_get? hl' h0)).mp
    (hl.trans hl'.symm)).1

theorem le_of_get? {x' y' : Nat} (hu : n.get? x y = some u) (hv : n.get? x' y' = some v)
    (h0 : u ≠ 0) (h0' : v ≠ 0) (hle : y < y' ∨ y = y' ∧ x ≤ x') : u ≤ v := by
  have hset := h.setAt_of_get? hu h0
  have hset' := h.setAt_of_get? hv h0'
  obtain ⟨hx, hy⟩ := hset.inside
  obtain ⟨hx', hy'⟩ := hset'.inside
  rw [h.get?_eq_labelOf hx hy, Option.some.injEq] at hu
  rw [h.get?_eq_labelOf hx' hy', Option.some.injEq] at hv
  rw [setAt_iff hx' hy'] at hset'
  rw [← hu, ← hv]
  exact h.label_le ((place_le_place_iff hx hx').mpr hle) (place_lt hx' hy') hset'

theorem touchedRuns (c : Connectivity) (hl : l ≠ 0) :
    TouchedRuns c n l (joinedTo c n g.runCount l) := by
  have hmem : ∀ u, u ∈ joinedTo c n g.runCount l ↔ u ≠ 0 ∧ ∃ x x' y, n.get? x (y + 1) = some l ∧
      n.get? x' y = some u ∧ Adjacent c ⟨x, y + 1⟩ ⟨x', y⟩ := fun u => by
    rw [h.mem_joinedTo_iff, joins_mem_reports_iff_get?, and_iff_right hl]
  have hlt : (joinedTo c n g.runCount l).Pairwise (· < ·) :=
    List.Pairwise.filter _ List.pairwise_lt_range'
  refine ⟨hmem, hlt.nodup, ?_, fun u hu => ?_⟩
  · refine hlt.imp_of_mem fun {u v} hu hv huv x y x' y' hu' hv' => ?_
    obtain ⟨hu0, a, b, r, hl1, hur, -⟩ := (hmem u).mp hu
    obtain ⟨hv0, a', b', r', hl2, hvr, -⟩ := (hmem v).mp hv
    -- both touch the run from the row above it
    have hrow := h.row_eq_of_get? hl1 hl2 hl
    have hyr := h.row_eq_of_get? hu' hur hu0
    have hyr' := h.row_eq_of_get? hv' hvr hv0
    refine ⟨by omega, ?_⟩
    by_contra hge
    have := h.le_of_get? hv' hu' hv0 hu0 (by omega)
    omega
  · obtain ⟨hu0, x, x', y, hlx, hux, -⟩ := (hmem u).mp hu
    have hle := h.le_of_get? hux hlx hu0 hl (.inl (Nat.lt_succ_self y))
    refine lt_of_le_of_ne hle fun heq => ?_
    have := h.row_eq_of_get? (heq ▸ hux) hlx hl
    omega

end RunsNumbered

/-- **The walk over a numbered grid hands over its runs in turn.** Whatever the table, the run
labelled `l` joins each run that it touches, from left to right, or if it touches none it opens; and
where no step of the table fails the walk ends. -/
theorem runs_handed_over_in_turn {runs : Nat} (c : Connectivity)
    (h : numberRuns s g = .ok (n, runs)) :
    ∃ us : Nat → List Nat, (∀ l ≠ 0, TouchedRuns c n l (us l)) ∧
      (∀ (E : Type) (take : E → Report → Loop E) (e : E), mergeRuns take c n e =
        ((List.range' 1 runs).flatMap fun l => callsOf l (us l)).foldlM take e) ∧
      ∀ (E : Type) (take : E → Report → E) (e : E),
        mergeRuns (fun e r => return take e r) c n e =
          return ((List.range' 1 runs).flatMap fun l => callsOf l (us l)).foldl take e := by
  obtain ⟨hnum, rfl⟩ := runsNumbered_of_ok h
  refine ⟨joinedTo c n g.runCount, fun l hl => hnum.touchedRuns c hl, fun E take e => ?_,
    fun E take e => ?_⟩
  · rw [mergeRuns_eq, hnum.reports_in_turn]
  · rw [mergeRuns_eq, hnum.reports_in_turn, List.foldlM_pure]

/-- Two pixels of a run above are joined once, and a corner at either end of a run is one
more join. -/
theorem runs_handed_over_in_turn_corners :
    let g : LabelGrid :=
      ⟨5, 3, #[1, 1, 0, 1, 0, 1, 1, 1, 0, 0, 0, 0, 0, 1, 0], by decide, by decide, rfl⟩
    let n : LabelGrid :=
      ⟨5, 3, #[1, 1, 0, 2, 0, 3, 3, 3, 0, 0, 0, 0, 0, 4, 0], by decide, by decide, rfl⟩
    numberRuns .standard g = .ok (n, 4) ∧ ∃ us : Nat → List Nat,
      (∀ l ≠ 0, TouchedRuns .eight n l (us l)) ∧
      ((List.range' 1 4).flatMap fun l => callsOf l (us l)) =
        [.opens 1, .opens 2, .joins 3 1, .joins 3 2, .joins 4 3] := by
  intro g n
  have hn : numberRuns .standard g = .ok (n, 4) := by decide
  obtain ⟨us, hus, -, hlog⟩ := runs_handed_over_in_turn .eight hn
  refine ⟨hn, us, hus, ?_⟩
  have hreports : reports .eight n =
      [.opens 1, .opens 2, .joins 3 1, .joins 3 2, .joins 4 3] := by decide
  -- a table that keeps all it is handed
  have hcalls := hlog (List Report) (fun e r => e ++ [r]) []
  rw [mergeRuns_eq, List.foldlM_pure, hreports] at hcalls
  simpa [← List.flatMap_def] using (Except.ok.inj (Loop.once_injective hcalls)).symm

end Bitplane.Region
