import Bitplane.Proofs.Region.LabeledComponents
import Mathlib.Data.List.NodupEquivFin

/-! # Components of a picture without its isolated pixels

A picture *keeps components* of another if it has those of its pixels whose labels are kept. It then
has no component but the kept ones, so that their numbers are the ranks of the kept labels.

* `KeepsComponents.joined_iff`: a path between kept pixels stays among them.
* `KeepsComponents.runCount_le`: a run is kept whole, so there are no more of them.
* `KeepsComponents.numbersComponents`: the ranks of the kept labels number the components.
* `two_le_count_labelAt_iff`: a label is repeated exactly if its pixels have set neighbours, so that
  the removal of isolated pixels keeps the components of two or more pixels
  (`keepsComponents_filterIsolated`).
* `label_filterIsolated_compacts`: with isolated pixels removed, labeling answers the ranks of the
  labels that it repeats otherwise. -/

namespace Bitplane

open Point (Adjacent)

open Region

/-- **The label names a component of two or more pixels.** -/
def LabelGrid.Repeats (g : LabelGrid) (k : Nat) : Prop := k ≠ 0 ∧ 2 ≤ g.labels.count k

instance (g : LabelGrid) : DecidablePred g.Repeats := fun _ => inferInstanceAs (Decidable (_ ∧ _))

namespace Raster

variable {r s : Raster} {c : Connectivity} {o : Options} {l : Labeling} {p q : Point}
  {labels : Array Nat} {K : Nat → Prop} {count k : Nat}

/-! ## Kept components -/

/-- **The picture `s` has the pixels of `r` whose labels are kept.** -/
structure KeepsComponents (s r : Raster) (labels : Array Nat) (K : Nat → Prop) : Prop where
  width_eq : s.width = r.width
  height_eq : s.height = r.height
  isSet_iff : ∀ p : Point, s.isSet p.x p.y = true ↔ r.isSet p.x p.y = true ∧ K (r.labelAt labels p)

namespace KeepsComponents

variable (h : s.KeepsComponents r labels K)
include h

theorem placeOf_eq (p : Point) : s.placeOf p = r.placeOf p := by
  unfold placeOf
  rw [h.width_eq]

theorem inside_iff : s.Inside p.x p.y ↔ r.Inside p.x p.y := by
  unfold Inside
  rw [h.width_eq, h.height_eq]

theorem points_eq : s.points = r.points := points_congr h.width_eq h.height_eq

theorem isSet_of_kept (hp : s.isSet p.x p.y = true) : r.isSet p.x p.y = true :=
  ((h.isSet_iff p).mp hp).1

section

variable (hn : r.NumbersComponents c labels count)
include hn

theorem isSet_of_joined (hp : s.isSet p.x p.y = true) (hj : r.Joined c p q) :
    s.isSet q.x q.y = true := by
  obtain ⟨hset, hkept⟩ := (h.isSet_iff p).mp hp
  rw [(hn.eq_iff p q hset hj.isSet_right).mpr hj] at hkept
  exact (h.isSet_iff q).mpr ⟨hj.isSet_right, hkept⟩

theorem joined_iff (hp : s.isSet p.x p.y = true) : s.Joined c p q ↔ r.Joined c p q := by
  constructor
  · intro hj
    induction hj with
    | here hset => exact .here (h.isSet_of_kept hset)
    | step _ ha hset ih => exact ih.step ha (h.isSet_of_kept hset)
  · intro hj
    induction hj with
    | here _ => exact .here hp
    | step hpq ha hset ih => exact ih.step ha (h.isSet_of_joined hn hp (hpq.step ha hset))

theorem startsComponent_iff : s.StartsComponent c p ↔ r.StartsComponent c p ∧
    K (r.labelAt labels p) := by
  unfold StartsComponent
  rw [h.isSet_iff p]
  constructor
  · rintro ⟨⟨hset, hkept⟩, hfirst⟩
    have hp := (h.isSet_iff p).mpr ⟨hset, hkept⟩
    refine ⟨⟨hset, fun q hj => ?_⟩, hkept⟩
    rw [← h.placeOf_eq, ← h.placeOf_eq]
    exact hfirst q ((h.joined_iff hn hp).mpr hj)
  · rintro ⟨⟨hset, hfirst⟩, hkept⟩
    have hp := (h.isSet_iff p).mpr ⟨hset, hkept⟩
    refine ⟨⟨hset, hkept⟩, fun q hj => ?_⟩
    rw [h.placeOf_eq, h.placeOf_eq]
    exact hfirst q ((h.joined_iff hn hp).mp hj)

/-- Where a run of kept pixels starts, one of the picture does: the pixel to the left would
be kept. -/
theorem startsRun_of_kept (hp : s.StartsRun p) : r.StartsRun p := by
  obtain ⟨hset, hleft⟩ := hp
  refine ⟨h.isSet_of_kept hset, ?_⟩
  by_contra hno
  obtain ⟨hx, hbefore⟩ := not_or.mp hno
  rw [Bool.not_eq_false] at hbefore
  have hkept := h.isSet_of_joined hn hset
    ((Joined.here (h.isSet_of_kept hset)).step (Point.adjacent_left c hx) hbefore)
  rcases hleft with h0 | hclear
  · exact hx h0
  · rw [hclear] at hkept
    cases hkept

theorem runCount_le : s.runCount ≤ r.runCount := by
  unfold runCount
  rw [h.points_eq]
  refine List.countP_mono_left fun p _ hp => ?_
  exact decide_eq_true (h.startsRun_of_kept hn (of_decide_eq_true hp))

theorem labelAt_map (hp : r.Inside p.x p.y) (f : Nat → Nat) :
    s.labelAt (labels.map f) p = f (r.labelAt labels p) := by
  unfold labelAt
  rw [h.placeOf_eq, Array.getElem?_map, Array.getElem?_eq_getElem (hn.size_labels ▸ placeOf_lt hp)]
  rfl

end

theorem numbersComponents [DecidablePred K] (h0 : ¬ K 0) (hn : r.NumbersComponents c labels count) :
    s.NumbersComponents c (labels.map (Rank.rank K)) (Nat.count K (count + 1)) where
  size_labels := by rw [Array.size_map, hn.size_labels, h.width_eq, h.height_eq]
  zero_iff p hp := by
    have hpr := h.inside_iff.mp hp
    rw [h.labelAt_map hn hpr, Rank.rank_eq_zero_iff, ← Bool.not_eq_true, h.isSet_iff p]
    refine not_congr ⟨fun hkept => ⟨?_, hkept⟩, And.right⟩
    by_contra hclear
    rw [(hn.zero_iff p hpr).mpr (by simpa using hclear)] at hkept
    exact h0 hkept
  eq_iff p q hp hq := by
    obtain ⟨hpset, hpkept⟩ := (h.isSet_iff p).mp hp
    obtain ⟨hqset, hqkept⟩ := (h.isSet_iff q).mp hq
    rw [h.labelAt_map hn (inside_of_isSet hpset), h.labelAt_map hn (inside_of_isSet hqset),
      Rank.rank_eq_rank_iff hpkept hqkept, hn.eq_iff p q hpset hqset, h.joined_iff hn hp]
  mem_iff k hk0 := by
    rw [Array.mem_map]
    constructor
    · rintro ⟨i, hi, rfl⟩
      have hkept : K i := by
        by_contra hno
        exact hk0 (Rank.rank_eq_zero_iff.mpr hno)
      have hi0 : i ≠ 0 := fun hz => h0 (hz ▸ hkept)
      exact Rank.rank_le (Nat.lt_succ_of_le ((hn.mem_iff i hi0).mp hi))
    · intro hk
      obtain ⟨i, hi, hkept, hik⟩ := Rank.exists_count_eq hk0 hk
      have hi0 : i ≠ 0 := fun hz => h0 (hz ▸ hkept)
      exact ⟨i, (hn.mem_iff i hi0).mpr (Nat.le_of_lt_succ hi), (Rank.rank_of hkept).trans hik⟩
  ordered p q hp hq hlt := by
    obtain ⟨hpr, hpkept⟩ := (h.startsComponent_iff hn).mp hp
    obtain ⟨hqr, hqkept⟩ := (h.startsComponent_iff hn).mp hq
    rw [h.labelAt_map hn (inside_of_isSet hpr.1), h.labelAt_map hn (inside_of_isSet hqr.1),
      Rank.rank_lt_rank_iff hpkept hqkept] at hlt
    rw [h.placeOf_eq, h.placeOf_eq]
    exact hn.ordered p q hpr hqr hlt

end KeepsComponents

/-! ## Isolated pixels -/

theorem exists_adjacent_of_joined (hj : r.Joined c p q) (hne : p ≠ q) :
    ∃ s, Adjacent c p s ∧ r.isSet s.x s.y = true := by
  induction hj with
  | here _ => exact absurd rfl hne
  | @step q s hpq ha hset ih =>
    by_cases hq : p = q
    · exact ⟨s, hq ▸ ha, hset⟩
    · exact ih hq

theorem two_le_count_iff :
    2 ≤ labels.count k ↔ ∃ i j : Nat, i < j ∧ labels[i]? = some k ∧ labels[j]? = some k := by
  rw [← Array.count_toList, ← List.duplicate_iff_two_le_count,
    List.duplicate_iff_exists_distinct_get]
  constructor
  · rintro ⟨i, j, hij, hi, hj⟩
    refine ⟨i, j, hij, ?_, ?_⟩
    · rw [← Array.getElem?_toList, List.getElem?_eq_getElem i.isLt, hi]
      rfl
    · rw [← Array.getElem?_toList, List.getElem?_eq_getElem j.isLt, hj]
      rfl
  · rintro ⟨i, j, hij, hi, hj⟩
    rw [← Array.getElem?_toList] at hi hj
    obtain ⟨hilt, hi⟩ := List.getElem?_eq_some_iff.mp hi
    obtain ⟨hjlt, hj⟩ := List.getElem?_eq_some_iff.mp hj
    exact ⟨⟨i, hilt⟩, ⟨j, hjlt⟩, hij, hi.symm, hj.symm⟩

/-- **A label is repeated exactly if a set pixel is adjacent to its pixels.** -/
theorem two_le_count_labelAt_iff (hn : r.NumbersComponents c labels count)
    (hp : r.isSet p.x p.y = true) : 2 ≤ labels.count (r.labelAt labels p) ↔
      ∃ q, Adjacent c p q ∧ r.isSet q.x q.y = true := by
  have hread : ∀ q : Point, r.isSet q.x q.y = true → r.Joined c p q →
      labels[r.placeOf q]? = some (r.labelAt labels p) := fun q hq hj =>
    (getElem?_eq_some_iff_labelAt hn.size_labels (inside_of_isSet hq)).mpr
      ((hn.eq_iff q p hq hp).mpr hj.symm)
  rw [two_le_count_iff]
  constructor
  · rintro ⟨i, j, hij, hi, hj⟩
    obtain ⟨k, hkp, hk⟩ : ∃ k, k ≠ r.placeOf p ∧ labels[k]? = some (r.labelAt labels p) := by
      rcases eq_or_ne i (r.placeOf p) with rfl | hne
      · exact ⟨j, hij.ne', hj⟩
      · exact ⟨i, hne, hi⟩
    have hklt : k < r.width * r.height := hn.size_labels ▸ (Array.getElem?_eq_some_iff.mp hk).1
    have hin := inside_pointAt hklt
    rw [← placeOf_pointAt r k, getElem?_eq_some_iff_labelAt hn.size_labels hin] at hk
    have hset : r.isSet (r.pointAt k).x (r.pointAt k).y = true := by
      by_contra hclear
      exact hn.labelAt_ne_zero hp (hk ▸ (hn.zero_iff _ hin).mpr (by simpa using hclear))
    refine exists_adjacent_of_joined ((hn.eq_iff p _ hp hset).mp hk.symm) fun hpk => hkp ?_
    rw [hpk, placeOf_pointAt]
  · rintro ⟨q, ha, hq⟩
    have hne : r.placeOf p ≠ r.placeOf q := fun hpq =>
      ha.ne (placeOf_inj (inside_of_isSet hp) (inside_of_isSet hq) hpq)
    have hip := hread p hp (.here hp)
    have hiq := hread q hq ((Joined.here hp).step ha hq)
    rcases Nat.lt_or_gt_of_ne hne with hlt | hgt
    · exact ⟨_, _, hlt, hip, hiq⟩
    · exact ⟨_, _, hgt, hiq, hip⟩

/-! ## Labels of what is left -/

/-- **The removal of isolated pixels keeps the components of two or more pixels.** -/
theorem keepsComponents_filterIsolated {g : LabelGrid}
    (hn : r.NumbersComponents .four g.labels count) :
    r.filterIsolatedPixelwise.KeepsComponents r g.labels g.Repeats where
  width_eq := rfl
  height_eq := rfl
  isSet_iff p := by
    rw [isSet_filterIsolatedPixelwise_iff]
    refine and_congr_right fun hp => ?_
    rw [← two_le_count_labelAt_iff hn hp]
    exact (and_iff_right (hn.labelAt_ne_zero hp)).symm

/-- **With isolated pixels removed, labeling erases the components of one pixel** and numbers the
others `1, 2, …` in the order of their labels: whenever labeling by four neighbours succeeds it
succeeds with the removal too, by either algorithm and strategy, and a label of two or more pixels
becomes its rank among these labels, any other `0`. -/
theorem label_filterIsolated_compacts {o' : Options} (hp : r.PaddingClear)
    (hc : o.connectivity = .four) (hf : o.filterIsolated = false) (hl : r.label o = .ok l)
    (hc' : o'.connectivity = .four) (hf' : o'.filterIsolated = true) :
    ∃ l', r.label o' = .ok l' ∧ l'.grid.width = l.grid.width ∧ l'.grid.height = l.grid.height ∧
      (∀ x y, l'.grid.get? x y = (l.grid.get? x y).map (Rank.rank l.grid.Repeats)) ∧
      l'.count = Nat.count l.grid.Repeats (l.count + 1) := by
  obtain ⟨hw2, hh2⟩ := sides_of_label hl
  obtain ⟨hw, hh, hn⟩ := numbersComponents_of_label hf hl
  rw [hc] at hn
  have hkeeps := keepsComponents_filterIsolated hn
  -- what is left has no more runs than the picture, so it is labeled
  have hruns := (hkeeps.runCount_le hn).trans_lt (runCount_lt_of_label hf hl)
  obtain ⟨l', hl'⟩ := exists_label (r := r.filterIsolatedPixelwise)
    (o := o'.withFilterIsolated false) hw2 hh2 hruns rfl
  obtain ⟨hw', hh', hn'⟩ := numbersComponents_of_label rfl hl'
  have hfour : (o'.withFilterIsolated false).connectivity = .four := hc'
  rw [hfour] at hn'
  -- and the ranks of the kept labels are the only numbering of its components
  obtain ⟨hlabels, hcount⟩ := hn'.unique (hkeeps.numbersComponents (fun h0 => h0.1 rfl) hn)
  have hwidth : l'.grid.width = l.grid.width := hw'.trans hw.symm
  have hheight : l'.grid.height = l.grid.height := hh'.trans hh.symm
  refine ⟨l', ?_, hwidth, hheight, fun x y => ?_, hcount⟩
  · rw [label_of_labelSource (labelSource_of_filtered hf' hp hw2 hh2) rfl rfl, hl']
  · unfold LabelGrid.get?
    rw [hwidth, hheight, hlabels, Array.getElem?_map]
    split_ifs
    · rfl
    · rfl

/-- Two isolated pixels, numbered first and third, are removed. -/
theorem label_filterIsolated_compacts_gaps :
    let r : Raster := ⟨9, 3, #[0x81, 0x80, 0x04, 0x00, 0x60, 0x80], by decide, by decide, by decide⟩
    let o : Options := ⟨.four, .eager, false, .serial⟩
    let o' : Options := ⟨.four, .deferred, true, .parallel ⟨[2, 0]⟩⟩
    let l : Labeling := ⟨⟨9, 3, #[1, 0, 0, 0, 0, 0, 0, 2, 2, 0, 0, 0, 0, 0, 3, 0, 0, 0, 0, 4, 4, 0, 0, 0,
      0, 0, 5], by decide, by decide, by decide⟩, 5⟩
    r.PaddingClear ∧ r.label o = .ok l ∧ ∃ l', r.label o' = .ok l' ∧ l'.grid.width = 9 ∧
      l'.grid.height = 3 ∧
      (∀ x y, l'.grid.get? x y = (l.grid.get? x y).map (Rank.rank l.grid.Repeats)) ∧
      l'.count = Nat.count l.grid.Repeats 6 := by
  intro r o o' l
  have hp : r.PaddingClear := by decide
  have hl : r.label o = .ok l := by decide +kernel
  exact ⟨hp, hl, label_filterIsolated_compacts hp rfl rfl hl rfl rfl⟩

end Raster

end Bitplane
