import Bitplane.Proofs.Morphology.IsolatedPixels
import Bitplane.Proofs.Region.RunReports
import Bitplane.Region.Labeling

/-! # Labeling numbers the components

Labeling seeds every run with a label of its own, merges the labels of runs that touch, and resolves
every label to the number of its set.

* `root_labelOf_eq_iff`: after the merge pixels have one root exactly if a path joins them;
  `root_labelOf_first`: the first pixel of a component has its root for a label.
* `numbersComponents_resolved`: so the resolved labels number the components.
* `label_of_labelSource`: where isolated pixels are removed first, what is left is labeled;
  `runCount_lt_of_label`: a picture that is labeled has fewer than `runLimit` runs.
* `label_numbers_components`: labeling succeeds on every picture with two rows and columns and fewer
  than `runLimit` runs, and its labels number the components. -/

namespace Bitplane

open Region

variable {r : Raster} {c : Connectivity} {n : LabelGrid} {o : Options} {s : Strategy} {p q : Point}
  {i k l x y : Nat}

/-! ## Runs of a picture -/

namespace Raster

/-- **A run starts at the point**: it is set, and its left neighbour is not. -/
def StartsRun (r : Raster) (p : Point) : Prop :=
  r.isSet p.x p.y = true ∧ (p.x = 0 ∨ r.isSet (p.x - 1) p.y = false)

instance (r : Raster) : DecidablePred r.StartsRun := fun _ => inferInstanceAs (Decidable (_ ∧ _))

/-- **The number of maximal horizontal runs** of set pixels. -/
def runCount (r : Raster) : Nat := r.points.countP fun p => r.StartsRun p

theorem runStartsAt_levels_iff (hi : i < r.width * r.height) :
    r.levels.RunStartsAt i ↔ r.StartsRun (r.pointAt i) := by
  have hin := inside_pointAt hi
  have hx : (r.pointAt i).x < r.levels.width := hin.1
  have hrow := LabelGrid.runStartsAt_iff (y := (r.pointAt i).y) hx
  have hplace : r.levels.width * (r.pointAt i).y + (r.pointAt i).x = i := Nat.div_add_mod i r.width
  have hset := labelOf_levels hin
  rw [placeOf_pointAt] at hset
  rw [hplace] at hrow
  rw [hrow, hset]
  unfold StartsRun
  refine and_congr (by cases r.isSet (r.pointAt i).x (r.pointAt i).y <;> simp) ?_
  by_cases h0 : (r.pointAt i).x = 0
  · rw [or_iff_left_of_imp fun _ => h0, or_iff_left_of_imp fun _ => h0]
  · have hleft : r.Inside ((r.pointAt i).x - 1) (r.pointAt i).y := ⟨by have := hin.1; omega, hin.2⟩
    have hplace' : r.placeOf ⟨(r.pointAt i).x - 1, (r.pointAt i).y⟩ = i - 1 := by
      have := placeOf_pointAt r i
      unfold placeOf at this ⊢
      simp only
      omega
    have hset' := labelOf_levels (p := ⟨(r.pointAt i).x - 1, (r.pointAt i).y⟩) hleft
    rw [hplace'] at hset'
    rw [hset']
    cases r.isSet ((r.pointAt i).x - 1) (r.pointAt i).y <;> simp

theorem runCount_levels (r : Raster) : r.levels.runCount = r.runCount := by
  have key : ∀ k ≤ r.width * r.height, Nat.count r.levels.RunStartsAt k =
      ((List.range k).map r.pointAt).countP fun p => r.StartsRun p := by
    intro k hk
    induction k with
    | zero => rfl
    | succ k ih =>
      rw [Nat.count_succ, ih (by omega), List.range_succ, List.map_append, List.countP_append,
        List.map_singleton, List.countP_singleton]
      refine congrArg _ (if_congr ?_ rfl rfl)
      rw [runStartsAt_levels_iff (by omega), decide_eq_true_iff]
  exact key _ (le_refl _)

/-! ## Sets of runs -/

/-- The forest after all reports of a numbered grid. -/
def mergedRuns (c : Connectivity) (n : LabelGrid) (runs : Nat) : Forest :=
  (reports c n).foldl Forest.take (.singletons runs)

section

variable (h : RunsNumbered r.levels n)
include h

theorem within_reports : Forest.Within r.runCount (reports c n) := by
  rw [← runCount_levels]
  exact (le_of_foldlM_mention (mentioned?_reports h c)).2

theorem root_eq_zero_iff : (mergedRuns c n r.runCount).root l = 0 ↔ l = 0 := by
  have hz : (mergedRuns c n r.runCount).root 0 = 0 :=
    Nat.le_zero.mp (Forest.root_le _ 0)
  constructor
  · intro h0
    have ht := (Forest.root_eq_iff_tied (within_reports h)).mp (h0.trans hz.symm)
    have := ht.eq_of_forall (v := fun l => l = 0) fun a b hab => by
      obtain ⟨ha, hb, -⟩ := joins_mem_reports_iff.mp hab
      simp [ha, hb]
    exact this.mpr rfl
  · rintro rfl
    exact hz

/-- **Pixels have one root exactly if a path joins them.** -/
theorem root_labelOf_eq_iff (hp : r.isSet p.x p.y = true) (hq : r.isSet q.x q.y = true) :
    (mergedRuns c n r.runCount).root (n.labelOf (r.placeOf p)) =
      (mergedRuns c n r.runCount).root (n.labelOf (r.placeOf q)) ↔ r.Joined c p q :=
  (Forest.root_eq_iff_tied (within_reports h)).trans (tied_iff_joined h hp hq)

theorem labelOf_le_runCount (hp : r.Inside p.x p.y) : n.labelOf (r.placeOf p) ≤ r.runCount := by
  rw [← runCount_levels]
  exact h.labelOf_le (placeOf_lt hp)

theorem exists_pixel_of_label (h0 : l ≠ 0) (hl : l ≤ r.runCount) :
    ∃ p : Point, r.isSet p.x p.y = true ∧ n.labelOf (r.placeOf p) = l := by
  rw [← runCount_levels] at hl
  obtain ⟨i, hi, -, hil⟩ := h.exists_start_eq h0 hl
  have hin := inside_pointAt (r := r) hi
  have hlab : n.labelOf (r.placeOf (r.pointAt i)) = l := by rwa [placeOf_pointAt]
  exact ⟨r.pointAt i, isSet_of_labelOf_ne_zero h hin (hlab ▸ h0), hlab⟩

theorem labelOf_mono (hq : r.isSet q.x q.y = true) (hpq : r.placeOf p ≤ r.placeOf q) :
    n.labelOf (r.placeOf p) ≤ n.labelOf (r.placeOf q) :=
  h.label_le hpq (placeOf_lt (inside_of_isSet hq)) (labelOf_levels_ne_zero hq)

theorem root_labelOf_first (hp : r.StartsComponent c p) :
    (mergedRuns c n r.runCount).root (n.labelOf (r.placeOf p)) = n.labelOf (r.placeOf p) := by
  have hle := (mergedRuns c n r.runCount).root_le (n.labelOf (r.placeOf p))
  have hne := labelOf_ne_zero h hp.1
  -- the root is the label of a pixel of the component, which is not before the first
  obtain ⟨q, hq, hql⟩ := exists_pixel_of_label h (mt (root_eq_zero_iff h (c := c)).mp hne)
    (hle.trans (labelOf_le_runCount h (inside_of_isSet hp.1)))
  have hroot := Forest.root_root (mergedRuns c n r.runCount) (n.labelOf (r.placeOf p))
  rw [← hql] at hroot
  have hj := (root_labelOf_eq_iff h hq hp.1).mp (hroot.trans hql)
  refine Nat.le_antisymm hle ?_
  rw [← hql]
  exact labelOf_mono h hq (hp.2 q hj.symm)

end

/-! ## Resolved labels -/

/-- **The resolved labels number the components**: a component is numbered by the rank of its first
pixel's label among those of all first pixels. -/
theorem numbersComponents_resolved (h : RunsNumbered r.levels n) {labels : Array Nat}
    (hs : labels.size = r.width * r.height)
    (hl : ∀ p : Point, r.Inside p.x p.y → r.labelAt labels p =
      (mergedRuns c n r.runCount).numberOf (n.labelOf (r.placeOf p))) :
    r.NumbersComponents c labels (Nat.count (mergedRuns c n r.runCount).IsHead (r.runCount + 1)) where
  size_labels := hs
  zero_iff p hp := by
    rw [hl p hp, ← labelOf_eq_zero_iff h hp]
    constructor
    · intro h0
      by_contra hne
      exact (Forest.numberOf_pos (mt (root_eq_zero_iff h (c := c)).mp hne)).ne' h0
    · intro h0
      exact Forest.numberOf_of_root_eq_zero ((root_eq_zero_iff h).mpr h0)
  eq_iff p q hp hq := by
    have hp0 := mt (root_eq_zero_iff h (c := c)).mp (labelOf_ne_zero h hp)
    have hq0 := mt (root_eq_zero_iff h (c := c)).mp (labelOf_ne_zero h hq)
    rw [hl p (inside_of_isSet hp), hl q (inside_of_isSet hq), Forest.numberOf_eq_iff hp0 hq0,
      root_labelOf_eq_iff h hp hq]
  mem_iff k h0 := by
    rw [mem_labels_iff hs]
    constructor
    · rintro ⟨p, hp, rfl⟩
      rw [hl p hp]
      have h1 := (mergedRuns c n r.runCount).root_le (n.labelOf (r.placeOf p))
      have h2 := labelOf_le_runCount h hp
      exact Nat.count_monotone _ (by omega)
    · intro hk
      obtain ⟨i, hi, hhead, hik⟩ := Rank.exists_count_eq h0 hk
      obtain ⟨p, hp, hpi⟩ := exists_pixel_of_label h hhead.1 (by omega)
      refine ⟨p, inside_of_isSet hp, ?_⟩
      rw [hl p (inside_of_isSet hp), hpi, ← hik]
      unfold Forest.numberOf
      rw [hhead.2]
  ordered p q hp hq hlt := by
    rw [hl p (inside_of_isSet hp.1), hl q (inside_of_isSet hq.1)] at hlt
    by_contra hle
    have hmono := labelOf_mono h hp.1 (not_lt.mp hle)
    unfold Forest.numberOf at hlt
    rw [root_labelOf_first h hp, root_labelOf_first h hq] at hlt
    have := Nat.count_monotone (mergedRuns c n r.runCount).IsHead (Nat.add_le_add_right hmono 1)
    omega

end Raster

theorem LabelGrid.labelOf_update_map {g : LabelGrid} (f : Nat → Nat) (hi : i < g.width * g.height) :
    (g.update s fun _ row => row.map f).labelOf i = f (g.labelOf i) := by
  have hx : i % g.width < g.width := Nat.mod_lt i g.width_pos
  have hy : i / g.width < g.height := Nat.div_lt_of_lt_mul hi
  have hkeep : Rows.KeepsLength g.width g.height fun _ row => row.map f := fun _ _ _ hrow => by
    rwa [List.length_map]
  have hrow := row_getElem? (g := g.update s fun _ row => row.map f) (x := i % g.width)
    (y := i / g.width) hx hy
  rw [row_update hkeep hy, List.getElem?_map, row_getElem? hx hy] at hrow
  simpa only [width_update, Nat.div_add_mod, Option.map_some, Option.some.injEq] using hrow.symm

/-- **Both algorithms resolve to the forest's table** when every run has been mentioned. -/
theorem Region.Algorithm.resolve_eq {es : List Report} (a : Algorithm)
    (h : mentioned? es = some k) :
    a.resolve k es = (es.foldl Forest.take (.singletons k)).resolved := by
  cases a with
  | deferred => rfl
  | eager => exact resolved_fresh_eq h

namespace Raster

/-! ## Labeling -/

theorem labelSource_of_unfiltered (hf : o.filterIsolated = false) : r.labelSource o = .ok r := by
  unfold labelSource
  rw [hf]
  rfl

theorem labelSource_of_filtered (hf : o.filterIsolated = true) (hp : r.PaddingClear)
    (hw : 2 ≤ r.width) (hh : 2 ≤ r.height) : r.labelSource o = .ok r.filterIsolatedPixelwise := by
  unfold labelSource
  rw [hf, filterIsolatedWith_eq o.strategy hp hw hh]
  rfl

theorem label_of_labelSource {s : Raster} (hs : r.labelSource o = .ok s)
    (hw : s.width = r.width) (hh : s.height = r.height) :
    r.label o = s.label (o.withFilterIsolated false) := by
  have hs' : s.labelSource (o.withFilterIsolated false) = .ok s := labelSource_of_unfiltered rfl
  unfold label
  rw [hs, hs', hw, hh]
  rfl

theorem exists_numbered (o : Options) (hruns : r.runCount < runLimit) :
    ∃ n, numberRuns o.strategy r.levels = .ok (n, r.runCount) ∧ RunsNumbered r.levels n := by
  rw [← runCount_levels] at hruns ⊢
  exact numberRuns_ok o.strategy hruns

theorem label_of_numbered (hw : 2 ≤ r.width) (hh : 2 ≤ r.height) (hf : o.filterIsolated = false)
    (hn : numberRuns o.strategy r.levels = .ok (n, r.runCount)) (h : RunsNumbered r.levels n) :
    ∃ l, r.label o = .ok l ∧ l.grid.width = r.width ∧ l.grid.height = r.height ∧
      l.count = Nat.count (mergedRuns o.connectivity n r.runCount).IsHead (r.runCount + 1) ∧
      ∀ p : Point, r.Inside p.x p.y → r.labelAt l.grid.labels p =
        (mergedRuns o.connectivity n r.runCount).numberOf (n.labelOf (r.placeOf p)) := by
  have hres := o.algorithm.resolve_eq (mentioned?_reports h o.connectivity)
  rw [runCount_levels] at hres
  have hsize : (mergedRuns o.connectivity n r.runCount).size = r.runCount + 1 := by
    unfold mergedRuns
    rw [Forest.size_foldl_take, Forest.size_singletons]
  have hlabel : r.label o = .ok ⟨n.update o.strategy fun _ row => row.map fun l =>
      (mergedRuns o.connectivity n r.runCount).resolved.1[l]?.getD 0,
      (mergedRuns o.connectivity n r.runCount).resolved.2⟩ := by
    unfold label
    rw [checkSides_ok hw hh, labelSource_of_unfiltered hf]
    simp only [Except.mapError, bind, Except.bind, hn, hres]
    rfl
  refine ⟨_, hlabel, h.width_eq, h.height_eq, ?_, fun p hp => ?_⟩
  · rw [Forest.resolved_eq, hsize]
  · have hi : r.placeOf p < n.width * n.height := by
      rw [h.width_eq, h.height_eq]
      exact placeOf_lt hp
    have hle := labelOf_le_runCount h hp
    refine (LabelGrid.labelOf_update_map _ hi).trans ?_
    rw [Forest.resolved_eq, hsize, Array.getElem?_map, Array.getElem?_range, if_pos (by omega)]
    rfl

theorem label_error_of_sides (hs : r.width < 2 ∨ r.height < 2) :
    r.label o = .error (.raster (.tooSmall r.width r.height 2)) := by
  unfold label
  rw [checkSides_tooSmall hs]
  rfl

theorem label_error_of_runs (hw : 2 ≤ r.width) (hh : 2 ≤ r.height) (hf : o.filterIsolated = false)
    (hruns : runLimit ≤ r.runCount) : r.label o = .error (.imageTooLarge r.width r.height) := by
  have hlevels : runLimit ≤ r.levels.runCount := by rwa [runCount_levels]
  have hn := numberRuns_error o.strategy hlevels
  unfold label
  rw [checkSides_ok hw hh, labelSource_of_unfiltered hf]
  simp only [Except.mapError, bind, Except.bind, hn]
  rfl

theorem exists_label (hw : 2 ≤ r.width) (hh : 2 ≤ r.height) (hruns : r.runCount < runLimit)
    (hf : o.filterIsolated = false) : ∃ l, r.label o = .ok l := by
  obtain ⟨n, hn, h⟩ := exists_numbered o hruns
  obtain ⟨l, hl, -⟩ := label_of_numbered hw hh hf hn h
  exact ⟨l, hl⟩

theorem sides_of_label {l : Labeling} (hl : r.label o = .ok l) : 2 ≤ r.width ∧ 2 ≤ r.height := by
  by_contra hs
  rw [label_error_of_sides (by omega)] at hl
  cases hl

theorem runCount_lt_of_label {l : Labeling} (hf : o.filterIsolated = false)
    (hl : r.label o = .ok l) : r.runCount < runLimit := by
  obtain ⟨hw, hh⟩ := sides_of_label hl
  by_contra hruns
  rw [label_error_of_runs hw hh hf (not_lt.mp hruns)] at hl
  cases hl

/-- **Whenever labeling succeeds its labels number the components.** -/
theorem numbersComponents_of_label {l : Labeling} (hf : o.filterIsolated = false)
    (hl : r.label o = .ok l) : l.grid.width = r.width ∧ l.grid.height = r.height ∧
      r.NumbersComponents o.connectivity l.grid.labels l.count := by
  obtain ⟨hw2, hh2⟩ := sides_of_label hl
  obtain ⟨n, hn, h⟩ := exists_numbered o (runCount_lt_of_label hf hl)
  obtain ⟨l', hl', hw, hh, hc, hlab⟩ := label_of_numbered hw2 hh2 hf hn h
  obtain rfl : l' = l := by
    rw [hl] at hl'
    exact (Except.ok.inj hl').symm
  have hsize : l'.grid.labels.size = r.width * r.height := by rw [l'.grid.size_labels, hw, hh]
  refine ⟨hw, hh, ?_⟩
  rw [hc]
  exact numbersComponents_resolved h hsize hlab

/-- **Labeling numbers the components of every picture**, by either algorithm and strategy, whatever
the padding: it succeeds, and clear pixels are labelled `0`, set pixels alike exactly if a path of
neighbours joins them, and the components `1, …, count` in raster order of their first pixels. -/
theorem label_numbers_components (hw : 2 ≤ r.width) (hh : 2 ≤ r.height)
    (hruns : r.runCount < runLimit) (hf : o.filterIsolated = false) :
    ∃ l, r.label o = .ok l ∧ l.grid.width = r.width ∧ l.grid.height = r.height ∧
      r.NumbersComponents o.connectivity l.grid.labels l.count := by
  have hlevels : r.levels.runCount < runLimit := by rwa [runCount_levels]
  obtain ⟨n, hn, h⟩ := numberRuns_ok o.strategy hlevels
  rw [runCount_levels] at hn
  obtain ⟨l, hl, -⟩ := label_of_numbered hw hh hf hn h
  exact ⟨l, hl, numbersComponents_of_label hf hl⟩

/-- Two columns that meet in the last row, and padding that is set. -/
theorem label_numbers_components_cup :
    let r : Raster := ⟨3, 3, #[0xbf, 0xa0, 0xff], by decide, by decide, by decide⟩
    let o : Options := ⟨.four, .eager, false, .parallel ⟨[2, 0]⟩⟩
    2 ≤ r.width ∧ 2 ≤ r.height ∧ r.runCount < runLimit ∧ o.filterIsolated = false ∧
      ∃ l, r.label o = .ok l ∧ l.grid.width = 3 ∧ l.grid.height = 3 ∧
        r.NumbersComponents .four l.grid.labels l.count :=
  ⟨by decide, by decide, by decide, rfl,
    label_numbers_components (by decide) (by decide) (by decide) rfl⟩

end Raster

end Bitplane
