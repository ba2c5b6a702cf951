import Bitplane.Proofs.Region.ComponentNumbers
import Bitplane.Proofs.Region.DenseForest
import Bitplane.Proofs.Region.TouchingRuns
import Bitplane.Raster.Pixels

/-! # The reports of a picture's runs

* `mentioned?_reports`: the reports of a numbered grid are a history; each row mentions its runs in
  turn, and touched runs are of the row above.
* `tied_iff_joined`: in a numbered picture the reports tie the labels of two set pixels exactly if a
  path joins the pixels, whether runs of the path meet early or late. -/

namespace Bitplane

open Region Point

variable {c : Connectivity} {g n : LabelGrid} {r : Raster} {p q : Point} {i j k l m o x y : Nat}

namespace Region

open LabelGrid

/-! ## A history -/

theorem foldlM_mention_joins {us : List Nat} (hl0 : l ≠ 0) (hl : l ≤ m)
    (hu : ∀ o ∈ us, o ≠ 0 ∧ o ≤ m) :
    (us.map (Report.joins l)).foldlM Report.mention m = some m := by
  induction us with
  | nil => rfl
  | cons o us ih =>
    obtain ⟨ho0, ho⟩ := hu o (List.mem_cons_self ..)
    have he : Report.mention m (.joins l o) = some m := by
      rw [Report.mention, if_pos ⟨hl0, by omega, ho0, ho⟩, Nat.max_eq_left hl]
    rw [List.map_cons, List.foldlM_cons, he]
    exact ih fun o' ho' => hu o' (List.mem_cons_of_mem o ho')

theorem foldlM_mention_run {t : Run} {us : List Nat} (ht : t.label = m + 1)
    (hu : ∀ o ∈ us, o ≠ 0 ∧ o ≤ m) : (t.reports us).foldlM Report.mention m = some (m + 1) := by
  cases us with
  | nil =>
    have he : Report.mention m (.opens t.label) = some (m + 1) := by
      rw [Report.mention, if_pos ht]
    rw [Run.reports, List.foldlM_cons, he]
    rfl
  | cons o us =>
    obtain ⟨ho0, ho⟩ := hu o (List.mem_cons_self ..)
    have he : Report.mention m (.joins t.label o) = some (m + 1) := by
      rw [Report.mention, ht, if_pos ⟨by omega, le_refl _, ho0, ho⟩, Nat.max_eq_right (by omega)]
    show ((o :: us).map (Report.joins t.label)).foldlM Report.mention m = some (m + 1)
    rw [List.map_cons, List.foldlM_cons, he]
    refine foldlM_mention_joins (by omega) (by omega) fun o' ho' => ?_
    have := hu o' (List.mem_cons_of_mem o ho')
    omega

/-- Runs with consecutive labels that touch labels up to `b` mention them all. -/
theorem foldlM_mention_runs {ts : List Run} {us : Run → List Nat} {b : Nat} (hb : b ≤ m)
    (ht : ts.map Run.label = List.range' (m + 1) k) (hu : ∀ t ∈ ts, ∀ o ∈ us t, o ≠ 0 ∧ o ≤ b) :
    (ts.flatMap fun t => t.reports (us t)).foldlM Report.mention m = some (m + k) := by
  induction ts generalizing m k with
  | nil =>
    obtain rfl : k = 0 := by simpa using (congrArg List.length ht).symm
    rfl
  | cons t ts ih =>
    cases k with
    | zero => cases ht
    | succ k =>
      rw [List.map_cons, List.range'_succ, List.cons.injEq] at ht
      have hrun : (t.reports (us t)).foldlM Report.mention m = some (m + 1) := by
        refine foldlM_mention_run ht.1 fun o ho => ?_
        have := hu t (List.mem_cons_self ..) o ho
        omega
      rw [List.flatMap_cons, List.foldlM_append, hrun]
      have := ih (m := m + 1) (k := k) (by omega) ht.2 fun t' ht' =>
        hu t' (List.mem_cons_of_mem t ht')
      rw [Nat.add_assoc, Nat.add_comm 1] at this
      exact this

section

variable (h : RunsNumbered g n)
include h

theorem foldlM_mention_row (hy : y < g.height) :
    (rowReports c (if y = 0 then #[] else (n.row (y - 1)).toArray) (n.row y)).foldlM Report.mention
      (g.runsBefore (g.width * y)) = some (g.runsBefore (g.width * (y + 1))) := by
  unfold rowReports
  rw [← countRuns_row hy]
  refine foldlM_mention_runs (le_refl _) ?_ fun t _ o ho => ?_
  · rw [h.row_eq hy, map_label_runsOf_numberRow _ _ _ _ (by simp)]
    simp
  · obtain ⟨h0, x, -, -, hx⟩ := mem_touched_iff.mp ho
    refine ⟨h0, ?_⟩
    cases y with
    | zero => simp at hx
    | succ y =>
      have hyn : y < n.height := by
        rw [h.height_eq]
        omega
      simp only [Nat.succ_ne_zero, if_false, Nat.add_sub_cancel, List.getElem?_toArray] at hx
      have hxw : x < n.width := lt_width_of_row hx
      rw [row_getElem? hxw hyn, Option.some.injEq, h.width_eq] at hx
      rw [h.width_eq] at hxw
      rw [h.labelOf_eq _ (place_lt hxw (Nat.lt_of_succ_lt hy))] at hx
      rw [← hx, Nat.mul_succ]
      split
      · exact Nat.zero_le _
      · exact runsBefore_mono (by omega)

/-- **The reports of a numbered grid mention every run in turn.** -/
theorem mentioned?_reports (c : Connectivity) : mentioned? (reports c n) = some g.runCount := by
  have key : ∀ y ≤ g.height, ((List.range y).flatMap fun y =>
      rowReports c (if y = 0 then #[] else (n.row (y - 1)).toArray) (n.row y)).foldlM Report.mention 0 =
        some (g.runsBefore (g.width * y)) := by
    intro y hy
    induction y with
    | zero => rfl
    | succ y ih =>
      rw [List.range_succ, List.flatMap_append, List.foldlM_append, ih (by omega),
        List.flatMap_singleton]
      exact foldlM_mention_row h hy
  have := key g.height (le_refl _)
  unfold mentioned? reports
  rwa [h.height_eq]

end

end Region

/-! ## Ties and paths -/

namespace Point

theorem Adjacent.cases (h : Adjacent c p q) :
    (p.y = q.y ∧ (p.x + 1 = q.x ∨ q.x + 1 = p.x)) ∨ p.y = q.y + 1 ∨ q.y = p.y + 1 := by
  cases c with
  | four =>
    rw [adjacent_four_iff] at h
    omega
  | eight =>
    rw [adjacent_eight_iff] at h
    omega

end Point

namespace Raster

theorem labelOf_levels (hp : r.Inside p.x p.y) :
    r.levels.labelOf (r.placeOf p) = (r.isSet p.x p.y).toNat := by
  have h := get?_levels hp.1 hp.2
  have hin : p.x < r.levels.width ∧ p.y < r.levels.height := hp
  unfold LabelGrid.get? at h
  rw [if_pos hin] at h
  unfold LabelGrid.labelOf placeOf
  rw [show p.y * r.width + p.x = p.y * r.levels.width + p.x from rfl, h]
  rfl

theorem labelOf_levels_ne_zero (hp : r.isSet p.x p.y = true) :
    r.levels.labelOf (r.placeOf p) ≠ 0 := by
  rw [labelOf_levels (inside_of_isSet hp), hp]
  decide

theorem pointAt_succ (h : (i + 1) % r.width ≠ 0) :
    r.pointAt (i + 1) = ⟨(r.pointAt i).x + 1, (r.pointAt i).y⟩ := by
  have hlt := Nat.mod_lt (i + 1) r.width_pos
  have hdiv := Nat.div_add_mod (i + 1) r.width
  have hp := pointAt_placeOf (r := r) (p := ⟨(i + 1) % r.width - 1, (i + 1) / r.width⟩) (by
    simp only
    omega)
  have hi : r.placeOf ⟨(i + 1) % r.width - 1, (i + 1) / r.width⟩ = i := by
    unfold placeOf
    simp only
    rw [Nat.mul_comm]
    omega
  rw [hi] at hp
  rw [hp]
  unfold pointAt
  simp only [Point.mk.injEq, and_true]
  omega

section

variable (h : RunsNumbered r.levels n)
include h

theorem labelOf_eq_zero_iff (hp : r.Inside p.x p.y) :
    n.labelOf (r.placeOf p) = 0 ↔ r.isSet p.x p.y = false := by
  rw [h.labelOf_eq_zero_iff (placeOf_lt hp), labelOf_levels hp]
  cases r.isSet p.x p.y <;> simp

theorem labelOf_ne_zero (hp : r.isSet p.x p.y = true) : n.labelOf (r.placeOf p) ≠ 0 := by
  rw [Ne, labelOf_eq_zero_iff h (inside_of_isSet hp), hp]
  decide

theorem isSet_of_labelOf_ne_zero (hp : r.Inside p.x p.y) (h0 : n.labelOf (r.placeOf p) ≠ 0) :
    r.isSet p.x p.y = true := by
  rw [Ne, labelOf_eq_zero_iff h hp] at h0
  simpa using h0

theorem labelOf_right (hp : r.isSet x y = true) (hq : r.isSet (x + 1) y = true) :
    n.labelOf (r.placeOf ⟨x + 1, y⟩) = n.labelOf (r.placeOf ⟨x, y⟩) := by
  have hin := inside_of_isSet hq
  refine h.succ_eq (i := r.placeOf ⟨x, y⟩) (placeOf_lt (p := ⟨x + 1, y⟩) hin) ?_
    (labelOf_levels_ne_zero (p := ⟨x, y⟩) hp) (labelOf_levels_ne_zero (p := ⟨x + 1, y⟩) hq)
  show (y * r.width + (x + 1)) % r.width ≠ 0
  rw [Nat.mul_comm, Nat.mul_add_mod, Nat.mod_eq_of_lt hin.1]
  omega

theorem joined_of_labelOf_eq (hp : r.isSet p.x p.y = true) (hq : r.isSet q.x q.y = true)
    (heq : n.labelOf (r.placeOf p) = n.labelOf (r.placeOf q)) : r.Joined c p q := by
  -- from the later pixel back to the earlier one, along the row
  wlog hle : r.placeOf p ≤ r.placeOf q generalizing p q
  · exact (this hq hp heq.symm (by omega)).symm
  induction hj : r.placeOf q generalizing q with
  | zero =>
    have : p = q := placeOf_inj (inside_of_isSet hp) (inside_of_isSet hq) (by omega)
    exact this ▸ .here hp
  | succ j ih =>
    rcases Nat.eq_or_lt_of_le hle with hpq | hlt
    · have : p = q := placeOf_inj (inside_of_isSet hp) (inside_of_isSet hq) hpq
      exact this ▸ .here hp
    · have hqin := inside_of_isSet hq
      obtain ⟨hcol, h0, hprev⟩ := h.prev_of_eq hlt (placeOf_lt hqin) (labelOf_levels_ne_zero hq) heq
      rw [hj, Nat.add_sub_cancel] at h0 hprev
      rw [hj] at hcol
      have hjlt : j < r.width * r.height := by
        have := placeOf_lt hqin
        omega
      have hin := inside_pointAt hjlt
      have hset : r.isSet (r.pointAt j).x (r.pointAt j).y = true := by
        refine isSet_of_labelOf_ne_zero h hin ?_
        rw [placeOf_pointAt, Ne, h.labelOf_eq_zero_iff hjlt]
        exact h0
      have hqj : q = ⟨(r.pointAt j).x + 1, (r.pointAt j).y⟩ := by
        rw [← pointAt_succ hcol, ← hj, pointAt_placeOf hqin.1]
      have hplace := placeOf_pointAt r j
      have hlab : n.labelOf (r.placeOf p) = n.labelOf (r.placeOf (r.pointAt j)) := by
        rw [hplace, hprev]
      have hback := ih hset hlab (by omega) hplace
      refine hback.step ?_ hq
      rw [hqj]
      exact adjacent_right c _ _

/-- **Adjacent pixels have tied labels.** -/
theorem tied_of_adjacent (ha : Adjacent c p q) (hp : r.isSet p.x p.y = true)
    (hq : r.isSet q.x q.y = true) :
    Forest.Tied (reports c n) (n.labelOf (r.placeOf p)) (n.labelOf (r.placeOf q)) := by
  have key : ∀ {p q : Point}, Adjacent c p q → r.isSet p.x p.y = true → r.isSet q.x q.y = true →
      p.y = q.y + 1 → Report.joins (n.labelOf (r.placeOf p)) (n.labelOf (r.placeOf q)) ∈
        reports c n := by
    rintro ⟨x, y⟩ ⟨x', y'⟩ ha hp hq hy
    obtain rfl : y = y' + 1 := hy
    have hin := inside_of_isSet hp
    refine joins_mem_reports_iff.mpr ⟨labelOf_ne_zero h hp, labelOf_ne_zero h hq, x, ?_, x', ?_, y',
      ?_, ?_, ?_, ha⟩
    · rw [h.width_eq]
      exact hin.1
    · rw [h.width_eq]
      exact (inside_of_isSet hq).1
    · rw [h.height_eq]
      exact hin.2
    · rw [h.width_eq, Nat.mul_comm]
      rfl
    · rw [h.width_eq, Nat.mul_comm]
      rfl
  rcases ha.cases with ⟨hy, hx | hx⟩ | hy | hy
  · obtain ⟨x, y⟩ := p
    obtain ⟨x', y'⟩ := q
    obtain rfl : y = y' := hy
    obtain rfl : x + 1 = x' := hx
    rw [labelOf_right h hp hq]
    exact .refl _
  · obtain ⟨x, y⟩ := p
    obtain ⟨x', y'⟩ := q
    obtain rfl : y = y' := hy
    obtain rfl : x' + 1 = x := hx
    rw [labelOf_right h hq hp]
    exact .refl _
  · exact .rel _ _ (key ha hp hq hy)
  · exact Forest.Tied.symm (.rel _ _ (key ha.symm hq hp hy))

theorem exists_adjacent_of_joins (hj : Report.joins l o ∈ reports c n) :
    ∃ p q : Point, r.isSet p.x p.y = true ∧ r.isSet q.x q.y = true ∧ Adjacent c p q ∧
      n.labelOf (r.placeOf p) = l ∧ n.labelOf (r.placeOf q) = o := by
  obtain ⟨hl0, ho0, x, hx, x', hx', y, hy, hl, ho, ha⟩ := joins_mem_reports_iff.mp hj
  rw [h.width_eq] at hx hx' hl ho
  rw [h.height_eq] at hy
  rw [Nat.mul_comm] at hl ho
  refine ⟨⟨x, y + 1⟩, ⟨x', y⟩, isSet_of_labelOf_ne_zero h ⟨hx, hy⟩ ?_,
    isSet_of_labelOf_ne_zero h ⟨hx', Nat.lt_of_succ_lt hy⟩ ?_, ha, hl, ho⟩
  · exact fun hc => hl0 (hl.symm.trans hc)
  · exact fun hc => ho0 (ho.symm.trans hc)

/-- **Labels are tied exactly if their pixels are joined.** -/
theorem tied_iff_joined (hp : r.isSet p.x p.y = true) (hq : r.isSet q.x q.y = true) :
    Forest.Tied (reports c n) (n.labelOf (r.placeOf p)) (n.labelOf (r.placeOf q)) ↔
      r.Joined c p q := by
  constructor
  · intro ht
    have hv := ht.eq_of_forall (v := fun l => {s | ∃ p : Point, r.isSet p.x p.y = true ∧
      n.labelOf (r.placeOf p) = l ∧ r.Joined c p s}) fun l o hlo => by
        obtain ⟨a, b, ha, hb, hab, rfl, rfl⟩ := exists_adjacent_of_joins h hlo
        ext s
        constructor
        · rintro ⟨p, hp, heq, hps⟩
          exact ⟨b, hb, rfl, (((joined_of_labelOf_eq h hp ha heq).step hab hb).symm).trans hps⟩
        · rintro ⟨p, hp, heq, hps⟩
          exact ⟨a, ha, rfl, (((joined_of_labelOf_eq h hp hb heq).step hab.symm ha).symm).trans hps⟩
    have hmem : q ∈ {s | ∃ p' : Point, r.isSet p'.x p'.y = true ∧
        n.labelOf (r.placeOf p') = n.labelOf (r.placeOf p) ∧ r.Joined c p' s} := by
      rw [hv]
      exact ⟨q, hq, rfl, .here hq⟩
    obtain ⟨p', hp', heq, hj⟩ := hmem
    exact (joined_of_labelOf_eq h hp hp' heq.symm).trans hj
  · intro hj
    induction hj with
    | here _ => exact .refl _
    | step hpq hqs hs ih =>
      exact (ih hpq.isSet_right).trans (tied_of_adjacent h hqs hpq.isSet_right hs)

end

end Raster

end Bitplane
