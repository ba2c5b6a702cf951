import Bitplane.Proofs.Region.LabeledComponents

/-! # Flood fill numbers the components

The fill of one component keeps the invariant `Filling`: what is labelled so far lies in the
component of the start, and a labelled point that does not wait in the queue has only labelled
neighbours.

* `Filling.write`, `Filling.enqueue`: a pixel is labelled and waits.
* `Filling.scan`: a point taken from the queue leaves it with all its neighbours labelled.
* `Filling.labelAt_of_joined`: with an empty queue the whole component is labelled.
* `FilledUpTo.step`: after each start the components that have a pixel so far are labelled by
  number.
* `fill_numbers_components`: so the fill numbers the components, and labeling agrees with it. -/

namespace Bitplane.Raster

open Region

open Point (Adjacent)

variable {r : Raster} {c : Connectivity} {s p q : Point} {base labels : Array Nat}
  {queue : List Point} {i m n : Nat}

/-! ## Labels written -/

theorem labelAt_setIfInBounds (hs : labels.size = r.width * r.height) (hp : r.Inside p.x p.y)
    (hq : r.Inside q.x q.y) (v : Nat) :
    r.labelAt (labels.setIfInBounds (r.placeOf p) v) q = if q = p then v else r.labelAt labels q := by
  unfold labelAt
  rw [Array.getElem?_setIfInBounds]
  by_cases h : q = p
  · subst h
    rw [if_pos rfl, if_pos (hs ▸ placeOf_lt hp), if_pos rfl]
    rfl
  · rw [if_neg fun hc => h (placeOf_inj hq hp hc.symm), if_neg h]

/-! ## One component -/

/-- **What holds throughout the fill from `s`** with the label after `n`, begun on the labels
`base`, while the points of `queue` wait. -/
structure Filling (r : Raster) (c : Connectivity) (s : Point) (n : Nat) (base labels : Array Nat)
    (queue : List Point) : Prop where
  size_labels : labels.size = r.width * r.height
  /-- Outside the component nothing changes. -/
  outside : ∀ p : Point, r.Inside p.x p.y → ¬ r.Joined c s p →
    r.labelAt labels p = r.labelAt base p
  /-- In the component no other label is written. -/
  component : ∀ p, r.Joined c s p → r.labelAt labels p = 0 ∨ r.labelAt labels p = n + 1
  start : r.labelAt labels s = n + 1
  queued : ∀ p ∈ queue, r.Joined c s p
  /-- A labelled point that does not wait has only labelled neighbours. -/
  closed : ∀ p, r.Joined c s p → r.labelAt labels p = n + 1 → p ∉ queue →
    ∀ q, Adjacent c p q → r.isSet q.x q.y = true → r.labelAt labels q = n + 1

namespace Filling

theorem init (hs : base.size = r.width * r.height) (hset : r.isSet s.x s.y = true)
    (h0 : ∀ p, r.Joined c s p → r.labelAt base p = 0) :
    r.Filling c s n base (base.setIfInBounds (r.placeOf s) (n + 1)) [s] := by
  have hin := inside_of_isSet hset
  have hlab := fun (q : Point) (hq : r.Inside q.x q.y) => labelAt_setIfInBounds hs hin hq (n + 1)
  refine ⟨by rw [Array.size_setIfInBounds, hs], fun p hp hj => ?_, fun p hj => ?_, ?_, ?_,
    fun p hj hp hmem => ?_⟩
  · rw [hlab p hp, if_neg]
    rintro rfl
    exact hj (.here hset)
  · rw [hlab p (inside_of_isSet hj.isSet_right)]
    split
    · exact .inr rfl
    · exact .inl (h0 p hj)
  · rw [hlab s hin, if_pos rfl]
  · rintro p hp
    rw [List.mem_singleton.mp hp]
    exact .here hset
  · rw [hlab p (inside_of_isSet hj.isSet_right), if_neg fun hc => hmem (List.mem_singleton.mpr hc),
      h0 p hj] at hp
    omega

theorem write (h : r.Filling c s n base labels (p :: queue)) (hj : r.Joined c s q) :
    r.Filling c s n base (labels.setIfInBounds (r.placeOf q) (n + 1)) (p :: (queue ++ [q])) := by
  have hin := inside_of_isSet hj.isSet_right
  have hlab := fun (a : Point) (ha : r.Inside a.x a.y) =>
    labelAt_setIfInBounds h.size_labels hin ha (n + 1)
  refine ⟨by rw [Array.size_setIfInBounds, h.size_labels], fun a hain hna => ?_, fun a hja => ?_,
    ?_, fun a hmem => ?_, fun a hja hla hmem b hab hb => ?_⟩
  · rw [hlab a hain, if_neg]
    · exact h.outside a hain hna
    · rintro rfl
      exact hna hj
  · rw [hlab a (inside_of_isSet hja.isSet_right)]
    split
    · exact .inr rfl
    · exact h.component a hja
  · rw [hlab s (inside_of_isSet hj.isSet_left), h.start]
    split <;> rfl
  · rw [List.mem_cons, List.mem_append, List.mem_singleton] at hmem
    rcases hmem with rfl | hmem | rfl
    · exact h.queued a (List.mem_cons_self ..)
    · exact h.queued a (List.mem_cons_of_mem _ hmem)
    · exact hj
  · simp only [List.mem_cons, List.mem_append, List.not_mem_nil, or_false, not_or] at hmem
    obtain ⟨hap, haq, hne⟩ := hmem
    have hwait : a ∉ p :: queue := by simp [hap, haq]
    rw [hlab a (inside_of_isSet hja.isSet_right), if_neg hne] at hla
    rw [hlab b (inside_of_isSet hb), h.closed a hja hla hwait b hab hb]
    split <;> rfl

/-- **A neighbour of a waiting point is labelled**, if set, and no label is lost. -/
theorem enqueue (h : r.Filling c s n base labels (p :: queue)) (ha : Adjacent c p q) :
    r.Filling c s n base (r.enqueue n (labels, queue) q).1
        (p :: (r.enqueue n (labels, queue) q).2) ∧
      (r.isSet q.x q.y = true → r.labelAt (r.enqueue n (labels, queue) q).1 q = n + 1) ∧
      ∀ a : Point, r.Inside a.x a.y → r.labelAt labels a = n + 1 →
        r.labelAt (r.enqueue n (labels, queue) q).1 a = n + 1 := by
  have hj : r.isSet q.x q.y = true → r.Joined c s q := fun hset =>
    (h.queued p (List.mem_cons_self ..)).step ha hset
  unfold Raster.enqueue
  simp only
  by_cases hnew : labels[r.placeOf q]? = some 0 ∧ r.isSet q.x q.y = true
  · have hin := inside_of_isSet hnew.2
    rw [if_pos hnew]
    refine ⟨h.write (hj hnew.2), fun _ => ?_, fun a hain hla => ?_⟩
    · rw [labelAt_setIfInBounds h.size_labels hin hin, if_pos rfl]
    · rw [labelAt_setIfInBounds h.size_labels hin hain, hla]
      split <;> rfl
  · rw [if_neg hnew]
    refine ⟨h, fun hset => ?_, fun a _ hla => hla⟩
    rcases h.component q (hj hset) with h0 | hq
    · exact absurd ⟨(getElem?_eq_some_iff_labelAt h.size_labels (inside_of_isSet hset)).mpr h0,
        hset⟩
        hnew
    · exact hq

theorem foldl_enqueue {qs : List Point} (h : r.Filling c s n base labels (p :: queue))
    (hqs : ∀ q ∈ qs, Adjacent c p q) :
    r.Filling c s n base (qs.foldl (r.enqueue n) (labels, queue)).1
        (p :: (qs.foldl (r.enqueue n) (labels, queue)).2) ∧
      (∀ q ∈ qs, r.isSet q.x q.y = true →
        r.labelAt (qs.foldl (r.enqueue n) (labels, queue)).1 q = n + 1) ∧
      ∀ a : Point, r.Inside a.x a.y → r.labelAt labels a = n + 1 →
        r.labelAt (qs.foldl (r.enqueue n) (labels, queue)).1 a = n + 1 := by
  induction qs generalizing labels queue with
  | nil => exact ⟨h, by simp, fun a _ ha => ha⟩
  | cons q qs ih =>
    obtain ⟨h1, h2, h3⟩ := h.enqueue (hqs q (List.mem_cons_self ..))
    obtain ⟨ih1, ih2, ih3⟩ := ih h1 fun q' hq' => hqs q' (List.mem_cons_of_mem q hq')
    rw [List.foldl_cons]
    refine ⟨ih1, fun q' hq' hset => ?_, fun a hain ha => ih3 a hain (h3 a hain ha)⟩
    rcases List.mem_cons.mp hq' with rfl | hq'
    · exact ih3 q' (inside_of_isSet hset) (h2 hset)
    · exact ih2 q' hq' hset

/-- **A point leaves the queue** when its neighbours have been labelled. -/
theorem scan (h : r.Filling c s n base labels (p :: queue)) :
    r.Filling c s n base
      ((p.neighbours c r.width r.height).foldl (r.enqueue n) (labels, queue)).1
      ((p.neighbours c r.width r.height).foldl (r.enqueue n) (labels, queue)).2 := by
  obtain ⟨h1, h2, -⟩ := h.foldl_enqueue fun q hq => (Point.mem_neighbours_iff.mp hq).1
  refine ⟨h1.size_labels, h1.outside, h1.component, h1.start,
    fun a ha => h1.queued a (List.mem_cons_of_mem p ha), fun a hja hla hmem b hab hb => ?_⟩
  by_cases hap : a = p
  · subst hap
    exact h2 b (Point.mem_neighbours_iff.mpr ⟨hab, inside_of_isSet hb⟩) hb
  · exact h1.closed a hja hla (by simp [hap, hmem]) b hab hb

theorem spread (h : r.Filling c s n base labels queue) :
    r.Filling c s n base (r.spread c n labels queue) [] := by
  fun_induction Raster.spread r c n labels queue with
  | case1 labels => exact h
  | case2 labels p queue next ih => exact ih h.scan

/-- With nothing waiting, all that can be reached from the start is labelled. -/
theorem labelAt_of_joined (h : r.Filling c s n base labels []) (hj : r.Joined c s p) :
    r.labelAt labels p = n + 1 := by
  induction hj with
  | here _ => exact h.start
  | step hpq hqs hs ih => exact h.closed _ hpq ih (by simp) _ hqs hs

end Filling

/-! ## All components -/

/-- **The labels after the first `i` places**: a component is labelled by its number once a pixel of
it has been met, and `n` components have been. -/
structure FilledUpTo (r : Raster) (c : Connectivity) (i : Nat) (labels : Array Nat) (n : Nat) :
    Prop where
  size_labels : labels.size = r.width * r.height
  met : ∀ p q, r.Joined c p q → r.placeOf q < i → r.labelAt labels p = r.numberOf c p
  unmet : ∀ p : Point, r.Inside p.x p.y → (∀ q, r.Joined c p q → i ≤ r.placeOf q) →
    r.labelAt labels p = 0
  count_eq : n = r.startsBefore c i

theorem FilledUpTo.init (r : Raster) (c : Connectivity) :
    r.FilledUpTo c 0 (Array.replicate (r.width * r.height) 0) 0 where
  size_labels := Array.size_replicate
  met p q _ hq := absurd hq (Nat.not_lt_zero _)
  unmet p _ _ := by
    unfold labelAt
    rw [Array.getElem?_replicate]
    split <;> rfl
  count_eq := by
    classical
    exact (Nat.count_zero _).symm

theorem FilledUpTo.step (h : r.FilledUpTo c i labels n) (hi : i < r.width * r.height) :
    r.FilledUpTo c (i + 1) (r.fillFrom c (labels, n) (r.pointAt i)).1
      (r.fillFrom c (labels, n) (r.pointAt i)).2 := by
  have hin := inside_pointAt hi
  have hplace := placeOf_pointAt r i
  have heq : ∀ q : Point, r.Inside q.x q.y → r.placeOf q = i → q = r.pointAt i := fun q hq hqi =>
    placeOf_inj hq hin (hqi.trans hplace.symm)
  unfold fillFrom
  simp only
  by_cases hnew : labels[r.placeOf (r.pointAt i)]? = some 0 ∧
      r.isSet (r.pointAt i).x (r.pointAt i).y = true
  · -- an unlabelled pixel is the first of its component
    rw [if_pos hnew]
    obtain ⟨h0, hset⟩ := hnew
    rw [getElem?_eq_some_iff_labelAt h.size_labels hin] at h0
    have hstart : r.StartsComponent c (r.pointAt i) := by
      refine ⟨hset, fun q hq => ?_⟩
      rw [hplace]
      by_contra hlt
      have := numberOf_pos (c := c) hset
      rw [← h.met _ q hq (not_le.mp hlt)] at this
      omega
    have hnum : ∀ p, r.Joined c (r.pointAt i) p → r.numberOf c p = n + 1 := fun p hp => by
      rw [numberOf_eq hp.symm hstart, startsBefore_succ hstart, hplace, h.count_eq]
    have hfill := ((Filling.init (c := c) (n := n) h.size_labels hset) fun p hp => by
      refine h.unmet p (inside_of_isSet hp.isSet_right) fun q hq => ?_
      have := hstart.2 q (hp.trans hq)
      rwa [hplace] at this).spread
    refine ⟨hfill.size_labels, fun p q hpq hq => ?_, fun p hp hun => ?_, ?_⟩
    · by_cases hj : r.Joined c (r.pointAt i) p
      · rw [hfill.labelAt_of_joined hj, hnum p hj]
      · rw [hfill.outside p (inside_of_isSet hpq.isSet_left) hj]
        refine h.met p q hpq ?_
        have hne : r.placeOf q ≠ i := fun hc =>
          hj (heq q (inside_of_isSet hpq.isSet_right) hc ▸ hpq.symm)
        omega
    · have hj : ¬ r.Joined c (r.pointAt i) p := fun hj => by
        have := hun _ hj.symm
        omega
      rw [hfill.outside p hp hj]
      exact h.unmet p hp fun q hq => Nat.le_of_succ_le (hun q hq)
    · rw [h.count_eq, ← hplace, startsBefore_succ hstart]
  · rw [if_neg hnew]
    have hns : ¬ r.StartsAt c i := by
      rintro ⟨-, hset, hmin⟩
      refine hnew ⟨(getElem?_eq_some_iff_labelAt h.size_labels hin).mpr ?_, hset⟩
      refine h.unmet _ hin fun q hq => ?_
      have := hmin q hq
      rwa [hplace] at this
    refine ⟨h.size_labels, fun p q hpq hq => ?_, fun p hp hun => ?_, ?_⟩
    · rcases Nat.lt_succ_iff_lt_or_eq.mp hq with hlt | hqi
      · exact h.met p q hpq hlt
      · obtain ⟨t, hqt, ht⟩ := exists_startsComponent (c := c) hpq.isSet_right
        have hle := ht.2 q hqt.symm
        refine h.met p t (hpq.trans hqt) (lt_of_le_of_ne (hqi ▸ hle) fun hti => ?_)
        rw [← hti] at hns
        exact hns (startsAt_placeOf ht)
    · exact h.unmet p hp fun q hq => Nat.le_of_succ_le (hun q hq)
    · rw [h.count_eq, startsBefore_succ_of_not hns]

theorem filledUpTo_foldl (r : Raster) (c : Connectivity) (hi : i ≤ r.width * r.height) :
    r.FilledUpTo c i
      (((List.range i).map r.pointAt).foldl (r.fillFrom c)
        (Array.replicate (r.width * r.height) 0, 0)).1
      (((List.range i).map r.pointAt).foldl (r.fillFrom c)
        (Array.replicate (r.width * r.height) 0, 0)).2 := by
  induction i with
  | zero => exact .init r c
  | succ i ih =>
    rw [List.range_succ, List.map_append, List.map_singleton, List.foldl_concat]
    exact (ih (by omega)).step hi

theorem filledUpTo_fill (r : Raster) (c : Connectivity) :
    r.FilledUpTo c (r.width * r.height) (r.fill c).1 (r.fill c).2 :=
      filledUpTo_foldl r c (le_refl _)

theorem labelAt_fill (hp : r.Inside p.x p.y) : r.labelAt (r.fill c).1 p = r.numberOf c p := by
  have h := filledUpTo_fill r c
  cases hset : r.isSet p.x p.y with
  | true => exact h.met p p (.here hset) (placeOf_lt hp)
  | false =>
    rw [numberOf_of_clear hset]
    refine h.unmet p hp fun q hq => ?_
    rw [hq.isSet_left] at hset
    cases hset

/-- **Flood fill numbers the components of every picture**, and whenever labeling succeeds it
answers the same labels and count, whatever the algorithm and strategy. -/
theorem fill_numbers_components (r : Raster) (c : Connectivity) :
    r.NumbersComponents c (r.fill c).1 (r.fill c).2 ∧
      ∀ o l, o.filterIsolated = false → o.connectivity = c → r.label o = .ok l →
        l.grid.width = r.width ∧ l.grid.height = r.height ∧ l.grid.labels = (r.fill c).1 ∧
          l.count = (r.fill c).2 := by
  have hfill : r.NumbersComponents c (r.fill c).1 (r.fill c).2 := by
    have h := filledUpTo_fill r c
    rw [h.count_eq]
    exact numbersComponents_of_numberOf h.size_labels fun p hp => labelAt_fill hp
  refine ⟨hfill, ?_⟩
  rintro o l hf rfl hl
  obtain ⟨hw, hh, hnum⟩ := numbersComponents_of_label hf hl
  exact ⟨hw, hh, hnum.unique hfill⟩

/-- Three pixels joined at their corners, and one apart. -/
theorem fill_numbers_components_corners :
    let r : Raster := ⟨4, 3, #[0xa0, 0x40, 0x10], by decide, by decide, by decide⟩
    let o : Options := ⟨.eight, .eager, false, .serial⟩
    let l : Labeling :=
      ⟨⟨4, 3, #[1, 0, 1, 0, 0, 1, 0, 0, 0, 0, 0, 2], by decide, by decide, by decide⟩, 2⟩
    o.filterIsolated = false ∧ o.connectivity = .eight ∧ r.label o = .ok l ∧
      l.grid.width = r.width ∧ l.grid.height = r.height ∧ l.grid.labels = (r.fill .eight).1 ∧
      l.count = (r.fill .eight).2 := by
  intro r o l
  have hl : r.label o = .ok l := by
    simp only [r, o, l]
    rfl
  exact ⟨rfl, rfl, hl, (fill_numbers_components r .eight).2 o l rfl rfl hl⟩

end Bitplane.Raster
