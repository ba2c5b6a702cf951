import Mathlib.Data.Finset.Card
import Std.Data.HashMap.Lemmas
import Bitplane.LabelGrid.Lemmas
import Bitplane.Region.Extraction
import Bitplane.Region.Partition
import Bitplane.Proofs.Region.FloodFill

/-! # Grids that pass the partition check

The check accepts a grid of labels exactly if it labels the components of the picture, under
whatever names: labels may leave gaps and come in any order.

* `Partition.Records`: what the tables of partners hold, and `Records.concat_background`,
  `Records.concat_insert`: a pair read keeps that.
* `Partition.agree_iff`, `Partition.same_iff`: two lists group alike exactly if their labels agree
  at the same pairs of places.
* `LabelGrid.Partitions`: the grid labels the components, and `fill_lt_of_partitions`: then there
  are no more components than labels.
* `checkPartition_ok_iff`: the check accepts those grids and no others. -/

namespace Bitplane.Partition

variable {forward backward : Std.HashMap Nat Nat} {done rest : List (Nat × Nat)} {a b : Nat}

/-- **Pairs of labels that group alike**: background is paired with background, and of the other
pairs two have one first label exactly if they have one second label. -/
structure Alike (ps : List (Nat × Nat)) : Prop where
  zero_iff : ∀ p ∈ ps, (p.1 = 0 ↔ p.2 = 0)
  eq_iff : ∀ p ∈ ps, ∀ q ∈ ps, p.1 ≠ 0 → q.1 ≠ 0 → (p.1 = q.1 ↔ p.2 = q.2)

/-- **The tables hold the pairs done**, background aside, from the first label and from
the second. -/
structure Records (forward backward : Std.HashMap Nat Nat) (done : List (Nat × Nat)) : Prop where
  zero_iff : ∀ p ∈ done, (p.1 = 0 ↔ p.2 = 0)
  forward_iff : ∀ a b, forward[a]? = some b ↔ a ≠ 0 ∧ (a, b) ∈ done
  backward_iff : ∀ a b, backward[b]? = some a ↔ a ≠ 0 ∧ (a, b) ∈ done

theorem Records.empty : Records ∅ ∅ [] where
  zero_iff p hp := absurd hp List.not_mem_nil
  forward_iff a b := by simp
  backward_iff a b := by simp

section

variable (h : Records forward backward done)
include h

theorem Records.alike : Alike done where
  zero_iff := h.zero_iff
  eq_iff := by
    rintro ⟨a, b⟩ hp ⟨k, l⟩ hq ha hk
    constructor
    · rintro rfl
      have hb := (h.forward_iff a b).mpr ⟨ha, hp⟩
      rw [(h.forward_iff a l).mpr ⟨hk, hq⟩] at hb
      exact (Option.some.inj hb).symm
    · rintro rfl
      have hb := (h.backward_iff a b).mpr ⟨ha, hp⟩
      rw [(h.backward_iff k b).mpr ⟨hk, hq⟩] at hb
      exact (Option.some.inj hb).symm

theorem Records.concat_background : Records forward backward (done ++ [(0, 0)]) where
  zero_iff p hp := by
    rcases List.mem_append.mp hp with hp | hp
    · exact h.zero_iff p hp
    · rw [List.mem_singleton.mp hp]
  forward_iff a b := by
    rw [h.forward_iff, List.mem_append, List.mem_singleton, Prod.mk.injEq]
    grind
  backward_iff a b := by
    rw [h.backward_iff, List.mem_append, List.mem_singleton, Prod.mk.injEq]
    grind

theorem Records.concat_insert (ha : a ≠ 0) (hb : b ≠ 0) (hf : (forward[a]?).getD b = b)
    (hk : (backward[b]?).getD a = a) :
    Records (forward.insert a b) (backward.insert b a) (done ++ [(a, b)]) where
  zero_iff p hp := by
    rcases List.mem_append.mp hp with hp | hp
    · exact h.zero_iff p hp
    · rw [List.mem_singleton.mp hp]
      exact iff_of_false ha hb
  forward_iff k l := by
    have hkl := h.forward_iff k l
    rw [Std.HashMap.getElem?_insert, List.mem_append, List.mem_singleton, Prod.mk.injEq]
    by_cases hak : a = k
    · subst hak
      rw [if_pos (beq_self_eq_true a), Option.some.injEq]
      grind
    · rw [if_neg (by simpa using hak), hkl]
      grind
  backward_iff k l := by
    have hkl := h.backward_iff k l
    rw [Std.HashMap.getElem?_insert, List.mem_append, List.mem_singleton, Prod.mk.injEq]
    by_cases hbl : b = l
    · subst hbl
      rw [if_pos (beq_self_eq_true b), Option.some.injEq]
      grind
    · rw [if_neg (by simpa using hbl), hkl]
      grind

/-- **The rest is accepted exactly if it groups alike together with the pairs done.** -/
theorem agree_iff : agree forward backward rest = true ↔ Alike (done ++ rest) := by
  induction rest generalizing forward backward done with
  | nil =>
    rw [List.append_nil]
    exact iff_of_true rfl h.alike
  | cons p rest ih =>
    obtain ⟨a, b⟩ := p
    have hmem : (a, b) ∈ done ++ (a, b) :: rest := by simp
    have happ : done ++ (a, b) :: rest = (done ++ [(a, b)]) ++ rest := by simp
    unfold agree
    by_cases hz : (a = 0) = (b = 0)
    · rw [if_neg (not_not.mpr hz)]
      by_cases ha : a = 0
      · rw [if_pos ha, happ]
        obtain rfl : b = 0 := hz.mp ha
        subst ha
        exact ih h.concat_background
      · have hb : b ≠ 0 := fun hb => ha (hz.mpr hb)
        rw [if_neg ha]
        by_cases hf : (forward[a]?).getD b = b
        · by_cases hk : (backward[b]?).getD a = a
          · rw [if_neg (by simp [hf, hk]), happ]
            exact ih (h.concat_insert ha hb hf hk)
          · rw [if_pos (.inr hk)]
            refine iff_of_false Bool.false_ne_true fun halike => ?_
            cases hget : backward[b]? with
            | none => exact hk (by rw [hget]; rfl)
            | some k =>
              obtain ⟨hk0, hkb⟩ := (h.backward_iff k b).mp hget
              have heq := (halike.eq_iff _ (List.mem_append_left _ hkb) _ hmem hk0 ha).mpr rfl
              exact hk (by rw [hget]; exact heq)
        · rw [if_pos (.inl hf)]
          refine iff_of_false Bool.false_ne_true fun halike => ?_
          cases hget : forward[a]? with
          | none => exact hf (by rw [hget]; rfl)
          | some l =>
            have hal := ((h.forward_iff a l).mp hget).2
            have heq := (halike.eq_iff _ (List.mem_append_left _ hal) _ hmem ha ha).mp rfl
            exact hf (by rw [hget]; exact heq)
    · rw [if_pos hz]
      exact iff_of_false Bool.false_ne_true fun halike => hz (propext (halike.zero_iff _ hmem))

end

theorem mem_zip_iff {k l : Array Nat} :
    (a, b) ∈ k.toList.zip l.toList ↔ ∃ i : Nat, k[i]? = some a ∧ l[i]? = some b := by
  simp only [List.mem_iff_getElem?, List.getElem?_zip_eq_some, Array.getElem?_toList]

/-- **Two lists of labels are found to group alike** exactly if they have one length, background at
the same places, and elsewhere one label at the same pairs of places. -/
theorem same_iff {k l : Array Nat} : same k l = true ↔ k.size = l.size ∧
    (∀ i < k.size, k[i]? = some 0 ↔ l[i]? = some 0) ∧
      ∀ i < k.size, ∀ j < k.size, k[i]? ≠ some 0 → k[j]? ≠ some 0 →
        (k[i]? = k[j]? ↔ l[i]? = l[j]?) := by
  unfold same
  rw [Bool.and_eq_true, beq_iff_eq, agree_iff .empty, List.nil_append]
  refine and_congr_right fun hs => ?_
  have hpair : ∀ i < k.size, ∃ a b, k[i]? = some a ∧ l[i]? = some b := fun i hi =>
    ⟨_, _, Array.getElem?_eq_getElem hi, Array.getElem?_eq_getElem (hs ▸ hi)⟩
  refine ⟨fun h => ⟨fun i hi => ?_, fun i hi j hj hi0 hj0 => ?_⟩, fun ⟨hz, he⟩ => ⟨?_, ?_⟩⟩
  · obtain ⟨a, b, hk, hl⟩ := hpair i hi
    rw [hk, hl, Option.some.injEq, Option.some.injEq]
    exact h.zero_iff _ (mem_zip_iff.mpr ⟨i, hk, hl⟩)
  · obtain ⟨a, b, hk, hl⟩ := hpair i hi
    obtain ⟨a', b', hk', hl'⟩ := hpair j hj
    rw [hk, ne_eq, Option.some.injEq] at hi0
    rw [hk', ne_eq, Option.some.injEq] at hj0
    rw [hk, hl, hk', hl', Option.some.injEq, Option.some.injEq]
    exact h.eq_iff _ (mem_zip_iff.mpr ⟨i, hk, hl⟩) _ (mem_zip_iff.mpr ⟨j, hk', hl'⟩) hi0 hj0
  · rintro ⟨a, b⟩ hp
    obtain ⟨i, hk, hl⟩ := mem_zip_iff.mp hp
    simpa [hk, hl] using hz i (Array.getElem?_eq_some_iff.mp hk).1
  · rintro ⟨a, b⟩ hp ⟨a', b'⟩ hq ha hb
    obtain ⟨i, hk, hl⟩ := mem_zip_iff.mp hp
    obtain ⟨j, hk', hl'⟩ := mem_zip_iff.mp hq
    simpa [hk, hl, hk', hl'] using he i (Array.getElem?_eq_some_iff.mp hk).1 j
      (Array.getElem?_eq_some_iff.mp hk').1 (by simpa [hk] using ha) (by simpa [hk'] using hb)

end Bitplane.Partition

namespace Bitplane

/-- **The grid labels the components of the picture**, whatever the labels are: background is the
clear pixels, and set pixels have one label exactly if a path joins them. -/
structure LabelGrid.Partitions (g : LabelGrid) (r : Raster) (c : Connectivity) : Prop where
  width_eq : g.width = r.width
  height_eq : g.height = r.height
  zero_iff : ∀ p : Point, r.Inside p.x p.y → (g.get? p.x p.y = some 0 ↔ r.isSet p.x p.y = false)
  eq_iff : ∀ p q : Point, r.isSet p.x p.y = true → r.isSet q.x q.y = true →
    (g.get? p.x p.y = g.get? q.x q.y ↔ r.Joined c p q)

namespace Raster

open Region (wordLimit)

variable {r : Raster} {g : LabelGrid} {c : Connectivity} {p q : Point} {cs : List Cell}

/-! ## The steps of the check -/

theorem checkCells_ok_iff :
    r.checkCells cs = .ok () ↔ ∀ k ∈ cs, r.isSet k.x k.y = (k.label != 0) := by
  induction cs with
  | nil => exact iff_of_true rfl fun k hk => absurd hk List.not_mem_nil
  | cons k cs ih =>
    unfold checkCells
    rw [List.forall_mem_cons]
    by_cases hk : r.isSet k.x k.y = (k.label != 0)
    · rw [if_pos hk, ih]
      exact (and_iff_right hk).symm
    · rw [if_neg hk]
      exact iff_of_false (fun h => nomatch h) fun h => hk h.1

theorem checkPartition_ok_iff_steps : r.checkPartition g c = .ok () ↔
    g.width = r.width ∧ g.height = r.height ∧ r.checkCells g.cells = .ok () ∧
      Partition.same (r.fill c).1 g.labels = true := by
  unfold checkPartition
  by_cases hs : g.width ≠ r.width ∨ g.height ≠ r.height
  · rw [if_pos hs]
    exact iff_of_false (fun h => nomatch h) fun h => by omega
  · rw [if_neg hs]
    rw [not_or, not_not, not_not] at hs
    rw [and_iff_right hs.1, and_iff_right hs.2]
    cases hc : r.checkCells g.cells with
    | error e => exact iff_of_false (fun h => nomatch h) fun h => nomatch h.1
    | ok u =>
      rw [and_iff_right rfl]
      change (if Partition.same (r.fill c).1 g.labels = true then Except.ok ()
        else Except.error Violation.components) = Except.ok () ↔ _
      by_cases hsame : Partition.same (r.fill c).1 g.labels = true
      · rw [if_pos hsame]
        exact iff_of_true rfl hsame
      · rw [if_neg hsame]
        exact iff_of_false (fun h => nomatch h) hsame

section

variable (hw : g.width = r.width) (hh : g.height = r.height)
include hw hh

theorem get?_eq_labels (hp : r.Inside p.x p.y) : g.get? p.x p.y = g.labels[r.placeOf p]? := by
  unfold LabelGrid.get? placeOf
  rw [if_pos (by rw [hw, hh]; exact hp), hw]

theorem checkCells_cells_ok_iff : r.checkCells g.cells = .ok () ↔
    ∀ p : Point, r.Inside p.x p.y → (g.get? p.x p.y = some 0 ↔ r.isSet p.x p.y = false) := by
  rw [checkCells_ok_iff]
  constructor
  · intro h p hp
    obtain ⟨l, hl⟩ := Option.isSome_iff_exists.mp
      (LabelGrid.get?_isSome_iff.mpr (show p.x < g.width ∧ p.y < g.height by rw [hw, hh]; exact hp))
    have hset : r.isSet p.x p.y = (l != 0) := h ⟨p.x, p.y, l⟩ (LabelGrid.mem_cells_iff.mpr hl)
    rw [hl, hset, Option.some.injEq, bne_eq_false_iff_eq]
  · intro h k hk
    have hin := LabelGrid.inside_of_mem_cells hk
    rw [hw, hh] at hin
    have hset := h ⟨k.x, k.y⟩ hin
    rw [LabelGrid.mem_cells_iff.mp hk, Option.some.injEq] at hset
    rw [Bool.eq_iff_iff, bne_iff_ne, ne_eq, hset, Bool.not_eq_false]

theorem same_fill_iff
    (hz : ∀ p : Point, r.Inside p.x p.y → (g.get? p.x p.y = some 0 ↔ r.isSet p.x p.y = false)) :
    Partition.same (r.fill c).1 g.labels = true ↔
      ∀ p q : Point, r.isSet p.x p.y = true → r.isSet q.x q.y = true →
        (g.get? p.x p.y = g.get? q.x q.y ↔ r.Joined c p q) := by
  have hsize := (filledUpTo_fill r c).size_labels
  have hfill : ∀ {p : Point}, r.Inside p.x p.y →
      (r.fill c).1[r.placeOf p]? = some (r.numberOf c p) := fun hp =>
    (getElem?_eq_some_iff_labelAt hsize hp).mpr (labelAt_fill hp)
  have hset : ∀ {p : Point}, r.Inside p.x p.y →
      ((r.fill c).1[r.placeOf p]? = some 0 ↔ r.isSet p.x p.y = false) := fun {p} hp => by
    rw [hfill hp, Option.some.injEq]
    refine ⟨fun h0 => ?_, numberOf_of_clear⟩
    by_contra hp'
    exact (numberOf_pos (c := c) (Bool.of_not_eq_false hp')).ne' h0
  rw [Partition.same_iff, and_iff_right (by rw [hsize, g.size_labels, hw, hh]), hsize]
  constructor
  · rintro ⟨-, he⟩ p q hp hq
    have hpin := inside_of_isSet hp
    have hqin := inside_of_isSet hq
    rw [get?_eq_labels hw hh hpin, get?_eq_labels hw hh hqin,
      ← he _ (placeOf_lt hpin) _ (placeOf_lt hqin) (by rw [ne_eq, hset hpin, hp]; simp)
        (by rw [ne_eq, hset hqin, hq]; simp),
      hfill hpin, hfill hqin, Option.some.injEq]
    exact numberOf_eq_iff hp hq
  · intro he
    refine ⟨fun i hi => ?_, fun i hi j hj hi0 hj0 => ?_⟩
    · have hin := inside_pointAt hi
      rw [← placeOf_pointAt r i, hset hin, ← get?_eq_labels hw hh hin, hz _ hin]
    · have hiin := inside_pointAt hi
      have hjin := inside_pointAt hj
      rw [← placeOf_pointAt r i] at hi0 ⊢
      rw [← placeOf_pointAt r j] at hj0 ⊢
      have hp := Bool.of_not_eq_false (mt (hset hiin).mpr hi0)
      have hq := Bool.of_not_eq_false (mt (hset hjin).mpr hj0)
      rw [hfill hiin, hfill hjin, Option.some.injEq, numberOf_eq_iff hp hq,
        ← get?_eq_labels hw hh hiin, ← get?_eq_labels hw hh hjin, he _ _ hp hq]

end

/-! ## The whole check -/

/-- **A picture whose components are labeled in words has fewer components than there
are words.** -/
theorem fill_lt_of_partitions (h : g.Partitions r c) (hl : ∀ l ∈ g.labels, l < wordLimit) :
    (r.fill c).2 < wordLimit := by
  have hlabel : ∀ k ∈ Finset.Icc 1 (r.fill c).2, ∃ l, l ∈ Finset.Ico 1 wordLimit ∧
      ∃ p : Point, r.isSet p.x p.y = true ∧ r.numberOf c p = k ∧ g.get? p.x p.y = some l := by
    intro k hk
    obtain ⟨h1, h2⟩ := Finset.mem_Icc.mp hk
    rw [(filledUpTo_fill r c).count_eq] at h2
    obtain ⟨p, hp, -, hpk⟩ := exists_startsBefore_eq (Nat.one_le_iff_ne_zero.mp h1) h2
    have hin := inside_of_isSet hp.1
    have hlt : r.placeOf p < g.labels.size := by
      rw [g.size_labels, h.width_eq, h.height_eq]
      exact placeOf_lt hin
    have hget := get?_eq_labels h.width_eq h.height_eq hin
    rw [Array.getElem?_eq_getElem hlt] at hget
    have h0 : g.labels[r.placeOf p] ≠ 0 := fun h0 => by
      rw [h0, h.zero_iff p hin, hp.1] at hget
      cases hget
    exact ⟨_, Finset.mem_Ico.mpr ⟨Nat.one_le_iff_ne_zero.mpr h0, hl _ (Array.getElem_mem hlt)⟩,
      p, hp.1, (numberOf_eq (.here hp.1) hp).trans hpk, hget⟩
  choose! label hmem hpixel using hlabel
  have hinj : Set.InjOn label (Finset.Icc 1 (r.fill c).2) := fun k hk m hm heq => by
    obtain ⟨p, hp, rfl, hpl⟩ := hpixel k hk
    obtain ⟨q, hq, rfl, hql⟩ := hpixel m hm
    exact (numberOf_eq_iff hp hq).mpr ((h.eq_iff p q hp hq).mp (by rw [hpl, hql, heq]))
  have hcard := Finset.card_le_card_of_injOn label hmem hinj
  rw [Nat.card_Icc, Nat.card_Ico] at hcard
  unfold wordLimit at hcard ⊢
  omega

/-- **The check accepts exactly the grids that label the components of the picture.** Where it
accepts labels that are words, the number of components is a word too. -/
theorem checkPartition_ok_iff (r : Raster) (g : LabelGrid) (c : Connectivity) :
    (r.checkPartition g c = .ok () ↔ g.Partitions r c) ∧
      (r.checkPartition g c = .ok () → (∀ l ∈ g.labels, l < wordLimit) →
        (r.fill c).2 < wordLimit) := by
  have hiff : r.checkPartition g c = .ok () ↔ g.Partitions r c := by
    rw [checkPartition_ok_iff_steps]
    constructor
    · rintro ⟨hw, hh, hcells, hsame⟩
      have hz := (checkCells_cells_ok_iff hw hh).mp hcells
      exact ⟨hw, hh, hz, (same_fill_iff hw hh hz).mp hsame⟩
    · rintro ⟨hw, hh, hz, he⟩
      exact ⟨hw, hh, (checkCells_cells_ok_iff hw hh).mpr hz, (same_fill_iff hw hh hz).mpr he⟩
  exact ⟨hiff, fun hok hl => fill_lt_of_partitions (hiff.mp hok) hl⟩

/-- Three pixels joined at their corners labelled `9`, and the one apart `4`. -/
theorem checkPartition_ok_iff_sparse :
    let r : Raster := ⟨4, 3, #[0xa0, 0x40, 0x10], by decide, by decide, by decide⟩
    let g : LabelGrid :=
      ⟨4, 3, #[9, 0, 9, 0, 0, 9, 0, 0, 0, 0, 0, 4], by decide, by decide, by decide⟩
    r.checkPartition g .eight = .ok () ∧ g.Partitions r .eight ∧
      (∀ l ∈ g.labels, l < wordLimit) ∧ (r.fill .eight).2 < wordLimit := by
  intro r g
  have hfill : (r.fill .eight).1 = #[1, 0, 1, 0, 0, 1, 0, 0, 0, 0, 0, 2] := by
    simp only [r]
    decide +kernel
  have hok : r.checkPartition g .eight = .ok () := by
    rw [checkPartition_ok_iff_steps, hfill]
    exact ⟨rfl, rfl, by decide, by cbv⟩
  have hl : ∀ l ∈ g.labels, l < wordLimit := by decide
  have h := checkPartition_ok_iff r g .eight
  exact ⟨hok, h.1.mp hok, hl, h.2 hok hl⟩

end Raster

end Bitplane
