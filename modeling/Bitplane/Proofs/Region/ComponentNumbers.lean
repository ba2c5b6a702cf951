import Bitplane.Proofs.Ranks
import Bitplane.Raster.Lemmas
import Bitplane.Region.Component
import Bitplane.Region.Fill

/-! # Numbered components

A row-by-row list of labels *numbers the components* of a picture if background is exactly the clear
pixels, labels agree exactly on joined pixels, the labels in use are `1, …, count`, and the
components are numbered in raster order of their first pixels. These clauses leave no choice: the
label of a component is the number of components that start at or before its first pixel
(`numberOf`).

* `exists_startsComponent`: every set pixel is joined to the first pixel of its component.
* `numbersComponents_of_numberOf`: the numbers of the components number them, and
  `NumbersComponents.labelAt_eq`, `NumbersComponents.count_eq`: nothing else does.
* `NumbersComponents.unique`: so two such lists are equal. -/

namespace Bitplane.Raster

variable {r : Raster} {c : Connectivity} {p q s : Point} {labels : Array Nat} {count : Nat}

/-! ## Points and places -/

theorem placeOf_pointAt (r : Raster) (i : Nat) : r.placeOf (r.pointAt i) = i := by
  unfold placeOf pointAt
  rw [Nat.mul_comm]
  exact Nat.div_add_mod i r.width

theorem pointAt_placeOf (hp : p.x < r.width) : r.pointAt (r.placeOf p) = p := by
  obtain ⟨x, y⟩ := p
  unfold placeOf pointAt
  simp only [Point.mk.injEq]
  constructor
  · rw [Nat.mul_comm, Nat.mul_add_mod, Nat.mod_eq_of_lt hp]
  · rw [Nat.mul_comm, Nat.mul_add_div r.width_pos, Nat.div_eq_of_lt hp, Nat.add_zero]

theorem placeOf_lt (h : r.Inside p.x p.y) : r.placeOf p < r.width * r.height := by
  have h1 := Nat.mul_le_mul_right r.width h.2
  have h2 := h.1
  rw [Nat.succ_mul, Nat.mul_comm r.height] at h1
  unfold placeOf
  omega

theorem inside_pointAt {i : Nat} (hi : i < r.width * r.height) :
    r.Inside (r.pointAt i).x (r.pointAt i).y :=
  ⟨Nat.mod_lt i r.width_pos, Nat.div_lt_of_lt_mul hi⟩

theorem placeOf_inj (hp : r.Inside p.x p.y) (hq : r.Inside q.x q.y)
    (h : r.placeOf p = r.placeOf q) : p = q := by
  rw [← pointAt_placeOf hp.1, ← pointAt_placeOf hq.1, h]

theorem mem_points_iff : p ∈ r.points ↔ r.Inside p.x p.y := by
  unfold points
  rw [List.mem_map]
  constructor
  · rintro ⟨i, hi, rfl⟩
    exact inside_pointAt (List.mem_range.mp hi)
  · intro h
    exact ⟨r.placeOf p, List.mem_range.mpr (placeOf_lt h), pointAt_placeOf h.1⟩

theorem nodup_points (r : Raster) : r.points.Nodup :=
  List.nodup_range.map (Function.LeftInverse.injective r.placeOf_pointAt)

theorem y_le_of_placeOf_le (hp : p.x < r.width) (hq : q.x < r.width)
    (h : r.placeOf p ≤ r.placeOf q) : p.y ≤ q.y := by
  rw [← pointAt_placeOf hp, ← pointAt_placeOf hq]
  exact Nat.div_le_div_right h

/-- The label at a point of a row-by-row list. -/
def labelAt (r : Raster) (labels : Array Nat) (p : Point) : Nat := labels[r.placeOf p]?.getD 0

theorem getElem?_eq_some_iff_labelAt (hs : labels.size = r.width * r.height)
    (hp : r.Inside p.x p.y) {v : Nat} : labels[r.placeOf p]? = some v ↔ r.labelAt labels p = v := by
  unfold labelAt
  rw [Array.getElem?_eq_getElem (hs ▸ placeOf_lt hp), Option.some.injEq, Option.getD_some]

/-! ## First pixels -/

/-- **The point is the first pixel of its component**, in raster order. -/
def StartsComponent (r : Raster) (c : Connectivity) (p : Point) : Prop :=
  r.isSet p.x p.y = true ∧ ∀ q, r.Joined c p q → r.placeOf p ≤ r.placeOf q

theorem exists_startsComponent (hp : r.isSet p.x p.y = true) :
    ∃ q, r.Joined c p q ∧ r.StartsComponent c q := by
  -- from a pixel that is not the first, go to an earlier one of the component
  induction h : r.placeOf p using Nat.strongRecOn generalizing p with
  | ind n ih =>
    by_cases hq : ∃ q, r.Joined c p q ∧ r.placeOf q < r.placeOf p
    · obtain ⟨q, hpq, hlt⟩ := hq
      obtain ⟨s, hqs, hs⟩ := ih _ (h ▸ hlt) hpq.isSet_right rfl
      exact ⟨s, hpq.trans hqs, hs⟩
    · refine ⟨p, .here hp, hp, fun q hpq => ?_⟩
      by_contra hlt
      exact hq ⟨q, hpq, not_le.mp hlt⟩

theorem StartsComponent.eq (hp : r.StartsComponent c p) (hq : r.StartsComponent c q)
    (h : r.Joined c p q) : p = q :=
  placeOf_inj (inside_of_isSet hp.1) (inside_of_isSet hq.1)
    (Nat.le_antisymm (hp.2 q h) (hq.2 p h.symm))

/-- A component starts at the place. -/
def StartsAt (r : Raster) (c : Connectivity) (i : Nat) : Prop :=
  i < r.width * r.height ∧ r.StartsComponent c (r.pointAt i)

theorem startsAt_placeOf (hp : r.StartsComponent c p) : r.StartsAt c (r.placeOf p) := by
  have hin := inside_of_isSet hp.1
  refine ⟨placeOf_lt hin, ?_⟩
  rw [pointAt_placeOf hin.1]
  exact hp

open Classical in
/-- The number of components that start before the place. -/
noncomputable def startsBefore (r : Raster) (c : Connectivity) (i : Nat) : Nat :=
  Nat.count (r.StartsAt c) i

open Classical in
/-- **The number of a pixel's component**, `0` for a clear pixel. -/
noncomputable def numberOf (r : Raster) (c : Connectivity) (p : Point) : Nat :=
  if h : r.isSet p.x p.y = true then
    r.startsBefore c (r.placeOf (exists_startsComponent (c := c) h).choose + 1)
  else 0

theorem numberOf_of_clear (h : r.isSet p.x p.y = false) : r.numberOf c p = 0 :=
  dif_neg (by simp [h])

theorem numberOf_eq (hpq : r.Joined c p q) (hq : r.StartsComponent c q) :
    r.numberOf c p = r.startsBefore c (r.placeOf q + 1) := by
  unfold numberOf
  rw [dif_pos hpq.isSet_left]
  obtain ⟨hj, hs⟩ := (exists_startsComponent (c := c) hpq.isSet_left).choose_spec
  rw [hs.eq hq (hj.symm.trans hpq)]

theorem startsBefore_succ (hp : r.StartsComponent c p) :
    r.startsBefore c (r.placeOf p + 1) = r.startsBefore c (r.placeOf p) + 1 := by
  classical
  exact Nat.count_succ_eq_succ_count (startsAt_placeOf hp)

theorem startsBefore_succ_of_not {i : Nat} (h : ¬ r.StartsAt c i) :
    r.startsBefore c (i + 1) = r.startsBefore c i := by
  classical
  exact Nat.count_succ_eq_count h

theorem startsBefore_mono {i j : Nat} (h : i ≤ j) : r.startsBefore c i ≤ r.startsBefore c j := by
  classical
  exact Nat.count_monotone _ h

theorem startsBefore_inj (hp : r.StartsComponent c p) (hq : r.StartsComponent c q)
    (h : r.startsBefore c (r.placeOf p + 1) = r.startsBefore c (r.placeOf q + 1)) : p = q := by
  classical
  rw [startsBefore_succ hp, startsBefore_succ hq] at h
  have := Nat.count_injective (startsAt_placeOf hp) (startsAt_placeOf hq) (Nat.succ.inj h)
  exact placeOf_inj (inside_of_isSet hp.1) (inside_of_isSet hq.1) this

theorem numberOf_eq_iff (hp : r.isSet p.x p.y = true) (hq : r.isSet q.x q.y = true) :
    r.numberOf c p = r.numberOf c q ↔ r.Joined c p q := by
  obtain ⟨p', hpp, hp'⟩ := exists_startsComponent (c := c) hp
  obtain ⟨q', hqq, hq'⟩ := exists_startsComponent (c := c) hq
  rw [numberOf_eq hpp hp', numberOf_eq hqq hq']
  constructor
  · intro h
    have := startsBefore_inj hp' hq' h
    subst this
    exact hpp.trans hqq.symm
  · intro h
    rw [hp'.eq hq' ((hpp.symm.trans h).trans hqq)]

theorem numberOf_pos (hp : r.isSet p.x p.y = true) : 0 < r.numberOf c p := by
  obtain ⟨q, hpq, hq⟩ := exists_startsComponent (c := c) hp
  rw [numberOf_eq hpq hq, startsBefore_succ hq]
  omega

theorem numberOf_le (p : Point) : r.numberOf c p ≤ r.startsBefore c (r.width * r.height) := by
  cases hp : r.isSet p.x p.y with
  | false => rw [numberOf_of_clear hp]; exact Nat.zero_le _
  | true =>
    obtain ⟨q, hpq, hq⟩ := exists_startsComponent (c := c) hp
    rw [numberOf_eq hpq hq]
    exact startsBefore_mono (placeOf_lt (inside_of_isSet hq.1))

theorem exists_startsBefore_eq {i k : Nat} (h0 : k ≠ 0) (hk : k ≤ r.startsBefore c i) :
    ∃ p, r.StartsComponent c p ∧ r.placeOf p < i ∧ r.startsBefore c (r.placeOf p + 1) = k := by
  classical
  obtain ⟨j, hj, hs, hc⟩ := Rank.exists_count_eq h0 hk
  refine ⟨r.pointAt j, hs.2, ?_, ?_⟩
  · rwa [placeOf_pointAt]
  · rw [placeOf_pointAt]
    exact hc

/-! ## Lists of labels -/

/-- **The labels number the components of a picture** from `1` to `count`, in raster order of their
first pixels. -/
structure NumbersComponents (r : Raster) (c : Connectivity) (labels : Array Nat) (count : Nat) :
    Prop where
  /-- There is a label for every pixel. -/
  size_labels : labels.size = r.width * r.height
  /-- Background is the clear pixels. -/
  zero_iff : ∀ p : Point, r.Inside p.x p.y → (r.labelAt labels p = 0 ↔ r.isSet p.x p.y = false)
  /-- Set pixels have one label exactly if a path joins them. -/
  eq_iff : ∀ p q : Point, r.isSet p.x p.y = true → r.isSet q.x q.y = true →
    (r.labelAt labels p = r.labelAt labels q ↔ r.Joined c p q)
  /-- The labels in use are `1, …, count`. -/
  mem_iff : ∀ k ≠ 0, (k ∈ labels ↔ k ≤ count)
  /-- A component with a lower label starts earlier. -/
  ordered : ∀ p q, r.StartsComponent c p → r.StartsComponent c q →
    r.labelAt labels p < r.labelAt labels q → r.placeOf p < r.placeOf q

theorem mem_labels_iff (hs : labels.size = r.width * r.height) {k : Nat} :
    k ∈ labels ↔ ∃ p : Point, r.Inside p.x p.y ∧ r.labelAt labels p = k := by
  constructor
  · intro hk
    obtain ⟨i, hi, rfl⟩ := Array.mem_iff_getElem.mp hk
    refine ⟨r.pointAt i, inside_pointAt (hs ▸ hi), ?_⟩
    unfold labelAt
    rw [placeOf_pointAt, Array.getElem?_eq_getElem hi]
    rfl
  · rintro ⟨p, hp, rfl⟩
    have hi : r.placeOf p < labels.size := hs ▸ placeOf_lt hp
    unfold labelAt
    rw [Array.getElem?_eq_getElem hi]
    exact Array.getElem_mem hi

theorem labelAt_eq_of_eq (hs : labels.size = r.width * r.height) {l : Array Nat}
    (hl : l.size = r.width * r.height)
    (h : ∀ p : Point, r.Inside p.x p.y → r.labelAt labels p = r.labelAt l p) : labels = l := by
  refine Array.ext (hs.trans hl.symm) fun i hi hi' => ?_
  have := h (r.pointAt i) (inside_pointAt (hs ▸ hi))
  unfold labelAt at this
  rwa [placeOf_pointAt, Array.getElem?_eq_getElem hi, Array.getElem?_eq_getElem hi'] at this

namespace NumbersComponents

variable (h : r.NumbersComponents c labels count)
include h

theorem exists_first {k : Nat} (h0 : k ≠ 0) (hk : k ≤ count) :
    ∃ p, r.StartsComponent c p ∧ r.labelAt labels p = k := by
  obtain ⟨q, hin, hq⟩ := (mem_labels_iff h.size_labels).mp ((h.mem_iff k h0).mpr hk)
  have hset : r.isSet q.x q.y = true := by
    by_contra hc
    exact h0 (hq ▸ (h.zero_iff q hin).mpr (by simpa using hc))
  obtain ⟨p, hqp, hp⟩ := exists_startsComponent (c := c) hset
  exact ⟨p, hp, ((h.eq_iff q p hset hp.1).mpr hqp).symm.trans hq⟩

theorem labelAt_ne_zero (hp : r.isSet p.x p.y = true) : r.labelAt labels p ≠ 0 := by
  intro h0
  rw [h.zero_iff p (inside_of_isSet hp), hp] at h0
  cases h0

theorem labelAt_le (hp : r.isSet p.x p.y = true) : r.labelAt labels p ≤ count :=
  (h.mem_iff _ (h.labelAt_ne_zero hp)).mp
    ((mem_labels_iff h.size_labels).mpr ⟨p, inside_of_isSet hp, rfl⟩)

theorem labelAt_first (hp : r.StartsComponent c p) :
    r.labelAt labels p = r.startsBefore c (r.placeOf p + 1) := by
  induction hn : r.placeOf p using Nat.strongRecOn generalizing p with
  | ind n ih =>
    subst hn
    have hlow : r.startsBefore c (r.placeOf p) < r.labelAt labels p := by
      by_contra hle
      obtain ⟨q, hq, hqp, hk⟩ := exists_startsBefore_eq (h.labelAt_ne_zero hp.1) (not_lt.mp hle)
      rw [← ih _ hqp hq rfl] at hk
      have := hq.eq hp ((h.eq_iff q p hq.1 hp.1).mp hk)
      subst this
      exact lt_irrefl _ hqp
    rw [startsBefore_succ hp]
    by_contra hne
    have hle := h.labelAt_le hp.1
    obtain ⟨q, hq, hk⟩ := h.exists_first (k := r.startsBefore c (r.placeOf p) + 1) (by omega)
      (by omega)
    have hqp := h.ordered q p hq hp (by omega)
    have h1 := ih _ hqp hq rfl
    have h2 := startsBefore_mono (r := r) (c := c) (Nat.succ_le_of_lt hqp)
    rw [Nat.succ_eq_add_one] at h2
    omega

theorem labelAt_eq (hp : r.Inside p.x p.y) : r.labelAt labels p = r.numberOf c p := by
  cases hset : r.isSet p.x p.y with
  | false => rw [numberOf_of_clear hset, (h.zero_iff p hp).mpr hset]
  | true =>
    obtain ⟨q, hpq, hq⟩ := exists_startsComponent (c := c) hset
    rw [numberOf_eq hpq hq, (h.eq_iff p q hset hq.1).mpr hpq, h.labelAt_first hq]

theorem count_eq : count = r.startsBefore c (r.width * r.height) := by
  apply Nat.le_antisymm
  · by_contra hlt
    obtain ⟨p, hp, hk⟩ := h.exists_first (k := r.startsBefore c (r.width * r.height) + 1) (by omega)
      (by omega)
    have := numberOf_le (r := r) (c := c) p
    rw [← h.labelAt_eq (inside_of_isSet hp.1)] at this
    omega
  · rcases Nat.eq_zero_or_pos (r.startsBefore c (r.width * r.height)) with h0 | h0
    · omega
    · obtain ⟨p, hp, -, hk⟩ := exists_startsBefore_eq h0.ne' (le_refl _)
      rw [← hk, ← h.labelAt_first hp]
      exact h.labelAt_le hp.1

theorem count_eq_one (hp : r.isSet p.x p.y = true) (hall : ∀ q s : Point, r.isSet q.x q.y = true →
    r.isSet s.x s.y = true → r.Joined c q s) : count = 1 := by
  have hpos : 1 ≤ count :=
    (Nat.one_le_iff_ne_zero.mpr (h.labelAt_ne_zero hp)).trans (h.labelAt_le hp)
  obtain ⟨q, hq, hq1⟩ := h.exists_first one_ne_zero hpos
  obtain ⟨s, hs, hsc⟩ := h.exists_first (by omega : count ≠ 0) le_rfl
  rw [← hsc, ← hq1]
  exact (h.eq_iff s q hs.1 hq.1).mpr (hall s q hs.1 hq.1)

theorem mem_Icc_iff {n : Nat} : n ∈ Finset.Icc 1 count ↔
    ∃ p : Point, r.isSet p.x p.y = true ∧ r.labelAt labels p = n := by
  rw [Finset.mem_Icc]
  constructor
  · rintro ⟨h1, hle⟩
    obtain ⟨p, hp, hlabel⟩ := h.exists_first (Nat.one_le_iff_ne_zero.mp h1) hle
    exact ⟨p, hp.1, hlabel⟩
  · rintro ⟨p, hp, rfl⟩
    exact ⟨Nat.one_le_iff_ne_zero.mpr (h.labelAt_ne_zero hp), h.labelAt_le hp⟩

/-- **There are as many components as keys** of set pixels, if joined pixels have one key and others
not. -/
theorem count_eq_card {κ : Type} {key : Point → κ} {keys : Finset κ}
    (hmem : ∀ p : Point, r.isSet p.x p.y = true → key p ∈ keys)
    (hkeys : ∀ k ∈ keys, ∃ p : Point, r.isSet p.x p.y = true ∧ key p = k)
    (hkey : ∀ p q : Point, r.isSet p.x p.y = true → r.isSet q.x q.y = true →
      (r.Joined c p q ↔ key p = key q)) : count = keys.card := by
  choose pixel hset hlabel using fun n (hn : n ∈ Finset.Icc 1 count) => h.mem_Icc_iff.mp hn
  have hcard : (Finset.Icc 1 count).card = keys.card := by
    refine Finset.card_bij (fun n hn => key (pixel n hn)) (fun n hn => hmem _ (hset n hn)) ?_ ?_
    · intro n hn m hm heq
      have hj := (hkey _ _ (hset n hn) (hset m hm)).mpr heq
      rw [← hlabel n hn, ← hlabel m hm]
      exact (h.eq_iff _ _ (hset n hn) (hset m hm)).mpr hj
    · intro k hk
      obtain ⟨p, hp, rfl⟩ := hkeys k hk
      have hn : r.labelAt labels p ∈ Finset.Icc 1 count := h.mem_Icc_iff.mpr ⟨p, hp, rfl⟩
      refine ⟨_, hn, (hkey _ p (hset _ hn) hp).mp ?_⟩
      exact (h.eq_iff _ p (hset _ hn) hp).mp (hlabel _ hn)
  rwa [Nat.card_Icc, Nat.add_sub_cancel] at hcard

/-- **The components of a picture are numbered in one way.** -/
theorem unique {l : Array Nat} {n : Nat} (h' : r.NumbersComponents c l n) :
    labels = l ∧ count = n := by
  refine ⟨labelAt_eq_of_eq h.size_labels h'.size_labels fun p hp => ?_, ?_⟩
  · rw [h.labelAt_eq hp, h'.labelAt_eq hp]
  · rw [h.count_eq, h'.count_eq]

end NumbersComponents

/-- **The numbers of the components number them.** -/
theorem numbersComponents_of_numberOf (hs : labels.size = r.width * r.height)
    (hl : ∀ p : Point, r.Inside p.x p.y → r.labelAt labels p = r.numberOf c p) :
    r.NumbersComponents c labels (r.startsBefore c (r.width * r.height)) where
  size_labels := hs
  zero_iff p hp := by
    rw [hl p hp]
    constructor
    · intro h0
      by_contra hc
      have := numberOf_pos (c := c) (p := p) (by simpa using hc)
      omega
    · exact numberOf_of_clear
  eq_iff p q hp hq := by
    rw [hl p (inside_of_isSet hp), hl q (inside_of_isSet hq)]
    exact numberOf_eq_iff hp hq
  mem_iff k h0 := by
    rw [mem_labels_iff hs]
    constructor
    · rintro ⟨p, hp, rfl⟩
      rw [hl p hp]
      exact numberOf_le p
    · intro hk
      obtain ⟨p, hp, -, hpk⟩ := exists_startsBefore_eq h0 hk
      have hin := inside_of_isSet hp.1
      exact ⟨p, hin, by rw [hl p hin, numberOf_eq (.here hp.1) hp, hpk]⟩
  ordered p q hp hq hlt := by
    rw [hl p (inside_of_isSet hp.1), hl q (inside_of_isSet hq.1), numberOf_eq (.here hp.1) hp,
      numberOf_eq (.here hq.1) hq] at hlt
    by_contra hle
    have := startsBefore_mono (r := r) (c := c) (Nat.add_le_add_right (not_lt.mp hle) 1)
    omega

end Bitplane.Raster
