import Mathlib.Order.ConditionallyCompleteLattice.Basic
import Bitplane.Proofs.Region.DenseForest

/-! # Groups in the order of opening

In a *free history* labels come in any order: one not seen yet is opened, and any label, seen or
not, is joined to a seen one. A dense numbering keeps the groups of the seen labels numbered
`1, …, count`, in the order in which the first member of each was opened.

* `shifted_eq_iff`, `shifted_lifted`, `lifted_lt`: how numbers move when one of them goes.
* `Grouped`: the numbers told apart by the ties, each taken by an opened label, and each below that
  of an opened label taken by one opened before it; `Grouped.take`, `FreeHistory.grouped`: a report
  and a free history keep that, within the table (`FreeHistory.used_le`).
* `dense_numbers_groups`: the statement for all free histories and their prefixes. -/

namespace Bitplane.Region

open Forest (Tied tied_concat_iff tied_concat_opens_iff)

variable {d : DenseNumbering} {e : Report} {es pre : List Report}
  {a b c fold i j k keep l m n o : Nat}

/-! ## Free histories -/

/-- The labels seen: opened, or joined to another. -/
def seen (es : List Report) : List Nat := es.map Report.label

/-- The label that a report opens. -/
def Report.opened? : Report → Option Nat
  | .opens l => some l
  | .joins _ _ => none

/-- **The labels opened**, in the order of the reports. -/
def opened (es : List Report) : List Nat := es.filterMap Report.opened?

/-- A report over the labels `1, …, n` that may come behind others: it opens a label not seen, or
joins a label to a seen one. -/
def Report.Follows (n : Nat) (es : List Report) : Report → Prop
  | .opens l => l ≠ 0 ∧ l ≤ n ∧ l ∉ seen es
  | .joins l o => l ≠ 0 ∧ l ≤ n ∧ o ∈ seen es

instance : Decidable (e.Follows n es) :=
  match e with
  | .opens _ => inferInstanceAs (Decidable (_ ∧ _))
  | .joins _ _ => inferInstanceAs (Decidable (_ ∧ _))

/-- **A history that mentions the labels `1, …, n` in any order.** -/
inductive FreeHistory (n : Nat) : List Report → Prop
  /-- Nothing is reported. -/
  | nil : FreeHistory n []
  /-- One more report that may follow. -/
  | concat {es : List Report} {e : Report} (h : FreeHistory n es) (he : e.Follows n es) :
    FreeHistory n (es ++ [e])

theorem seen_concat : seen (es ++ [e]) = seen es ++ [e.label] := List.map_append

theorem opened_concat : opened (es ++ [e]) = opened es ++ e.opened?.toList := by
  cases e <;> simp [opened, Report.opened?]

theorem mem_seen_of_mem_opened (h : l ∈ opened es) : l ∈ seen es := by
  obtain ⟨e, he, hl⟩ := List.mem_filterMap.mp h
  refine List.mem_map.mpr ⟨e, he, ?_⟩
  cases e with
  | opens l => exact Option.some.inj hl
  | joins l o => cases hl

theorem Report.Follows.label_le (h : e.Follows n es) : e.label ≠ 0 ∧ e.label ≤ n := by
  cases e <;> exact ⟨h.1, h.2.1⟩

namespace FreeHistory

theorem of_prefix (h : FreeHistory n es) (hp : pre <+: es) : FreeHistory n pre := by
  induction h with
  | nil => exact List.prefix_nil.mp hp ▸ .nil
  | concat h he ih =>
    rcases List.prefix_concat_iff.mp hp with rfl | hp
    · exact h.concat he
    · exact ih hp

section

variable (h : FreeHistory n es)
include h

theorem label_le (hl : l ∈ seen es) : l ≠ 0 ∧ l ≤ n := by
  induction h with
  | nil => cases hl
  | concat _ he ih =>
    rw [seen_concat, List.mem_append, List.mem_singleton] at hl
    rcases hl with hl | rfl
    · exact ih hl
    · exact he.label_le

theorem mem_seen_of_joins (hlo : .joins l o ∈ es) : l ∈ seen es ∧ o ∈ seen es := by
  refine ⟨List.mem_map.mpr ⟨_, hlo, rfl⟩, ?_⟩
  induction h with
  | nil => cases hlo
  | concat _ he ih =>
    rw [seen_concat, List.mem_append]
    rcases List.mem_append.mp hlo with hlo | hlo
    · exact .inl (ih hlo)
    · rw [List.mem_singleton] at hlo
      subst hlo
      exact .inl he.2.2

theorem eq_of_tied (ha : a ∉ seen es) (hab : Tied es a b) : b = a := by
  have heq := hab.eq_of_forall (v := fun k => decide (k = a)) fun l o hlo => by
    obtain ⟨hl, ho⟩ := h.mem_seen_of_joins hlo
    rw [decide_eq_false (ne_of_mem_of_not_mem hl ha), decide_eq_false (ne_of_mem_of_not_mem ho ha)]
  simpa using heq.symm

end

end FreeHistory

/-! ## Numbers that move -/

namespace DenseNumbering

theorem used_take_le (d : DenseNumbering) (e : Report) : (d.take e).used ≤ max d.used e.label := by
  cases e with
  | opens l => exact Nat.le_refl _
  | joins l o =>
    show (d.join l o).used ≤ max d.used l
    unfold join
    simp only
    split
    · exact Nat.le_refl _
    · split
      · exact Nat.le_max_left ..
      · exact Nat.le_max_left ..

theorem shifted_eq_zero_iff (hk : keep ≠ 0) (hlt : keep < fold) :
    shifted keep fold a = 0 ↔ a = 0 := by
  unfold shifted
  split_ifs <;> omega

/-- **Two numbers become one** if they were one, or are the two that are made one. -/
theorem shifted_eq_iff (hlt : keep < fold) : shifted keep fold a = shifted keep fold b ↔
    a = b ∨ (a = keep ∨ a = fold) ∧ (b = keep ∨ b = fold) := by
  unfold shifted
  split_ifs <;> omega

theorem shifted_le (hlt : keep < fold) (hf : fold ≤ c) (ha : a ≤ c) :
    shifted keep fold a ≤ c - 1 := by
  unfold shifted
  split_ifs <;> omega

theorem numberOf_merge_of_eq_zero (h : d.numberOf l = 0) (hab : max a b ≠ 0) :
    (d.merge a b).numberOf l = 0 := by
  unfold numberOf at h
  unfold merge numberOf
  simp only
  rw [getElem?_closeGap]
  split
  · cases hv : d.slots[l]? with
    | none => rfl
    | some v =>
      rw [hv, Option.getD_some] at h
      rw [h, Option.map_some, Option.getD_some, shifted, if_neg (Ne.symm hab),
        if_neg (Nat.not_lt_zero _)]
  · exact h

/-- The number that moves to `j`. -/
def lifted (fold j : Nat) : Nat := if j < fold then j else j + 1

theorem shifted_lifted (keep fold j : Nat) : shifted keep fold (lifted fold j) = j := by
  unfold shifted lifted
  split_ifs <;> omega

theorem lifted_lt (hlt : keep < fold) (h : j < shifted keep fold a) : lifted fold j < a := by
  unfold shifted at h
  unfold lifted
  split_ifs at h ⊢ <;> omega

end DenseNumbering

/-- **The numbers of a list of labels rise from `1`**: all below the number of a label are numbers
of labels before it. -/
def Rising (v : Nat → Nat) (os : List Nat) : Prop :=
  ∀ (i l : Nat), os[i]? = some l → ∀ k ≠ 0, k < v l → ∃ j < i, ∃ m, os[j]? = some m ∧ v m = k

namespace Rising

variable {v w : Nat → Nat} {os : List Nat}

theorem congr (h : Rising v os) (hw : ∀ m ∈ os, w m = v m) : Rising w os := by
  intro i l hi k h0 hk
  rw [hw l (List.mem_of_getElem? hi)] at hk
  obtain ⟨j, hj, m, hm, hmk⟩ := h i l hi k h0 hk
  exact ⟨j, hj, m, hm, (hw m (List.mem_of_getElem? hm)).trans hmk⟩

theorem concat (h : Rising v os) (hl : ∀ k ≠ 0, k < v l → ∃ m ∈ os, v m = k) :
    Rising v (os ++ [l]) := by
  intro i m hi k h0 hk
  rcases Nat.lt_or_ge i os.length with hlt | hge
  · rw [List.getElem?_append_left hlt] at hi
    obtain ⟨j, hj, o, ho, hok⟩ := h i m hi k h0 hk
    exact ⟨j, hj, o, by rwa [List.getElem?_append_left (hj.trans hlt)], hok⟩
  · rw [List.getElem?_append_right hge] at hi
    obtain rfl : l = m := by
      have := List.mem_of_getElem? hi
      rwa [List.mem_singleton, eq_comm] at this
    obtain ⟨o, ho, hok⟩ := hl k h0 hk
    obtain ⟨j, hj, rfl⟩ := List.getElem_of_mem ho
    exact ⟨j, hj.trans_le hge, _, List.getElem?_append_left hj ▸ List.getElem?_eq_getElem hj, hok⟩

theorem shifted (h : Rising v os) (hlt : keep < fold) :
    Rising (fun l => DenseNumbering.shifted keep fold (v l)) os := by
  intro i l hi k h0 hk
  have hlift : DenseNumbering.lifted fold k ≠ 0 := by
    unfold DenseNumbering.lifted
    split_ifs <;> omega
  obtain ⟨j, hj, m, hm, hmk⟩ := h i l hi _ hlift (DenseNumbering.lifted_lt hlt hk)
  exact ⟨j, hj, m, hm, (congrArg _ hmk).trans (DenseNumbering.shifted_lifted keep fold k)⟩

end Rising

/-! ## The invariant -/

/-- **What a dense numbering over `1, …, n` holds after a free history.** -/
structure Grouped (n : Nat) (es : List Report) (d : DenseNumbering) : Prop where
  size_eq : d.size = n + 1
  le_used : ∀ l ∈ seen es, l ≤ d.used
  numberOf_eq_zero_iff : ∀ l, d.numberOf l = 0 ↔ l ∉ seen es
  numberOf_le : ∀ l, d.numberOf l ≤ d.count
  /-- Ties tell the numbers apart. -/
  eq_iff : ∀ l ∈ seen es, ∀ k ∈ seen es, (d.numberOf l = d.numberOf k ↔ Tied es l k)
  /-- Every number is that of an opened label, -/
  exists_opened : ∀ k ≠ 0, k ≤ d.count → ∃ l ∈ opened es, d.numberOf l = k
  /-- and the lower ones have been opened before. -/
  rising : Rising d.numberOf (opened es)

namespace Grouped

theorem init (n : Nat) : Grouped n [] (.fresh n) where
  size_eq := by simp [DenseNumbering.fresh, DenseNumbering.size]
  le_used l hl := by cases hl
  numberOf_eq_zero_iff l := by
    unfold DenseNumbering.fresh DenseNumbering.numberOf
    rw [Array.getElem?_replicate]
    split <;> simp [seen]
  numberOf_le l := by
    unfold DenseNumbering.fresh DenseNumbering.numberOf
    rw [Array.getElem?_replicate]
    split <;> exact Nat.zero_le _
  eq_iff l hl := by cases hl
  exists_opened k h0 hk := absurd (Nat.le_zero.mp hk) h0
  rising i l hl := by cases hl

theorem mem_seen_joins_iff (hl : l ∈ seen es) : k ∈ seen (es ++ [.joins l o]) ↔ k ∈ seen es := by
  rw [seen_concat, List.mem_append, List.mem_singleton]
  exact or_iff_left_of_imp fun hk => hk ▸ hl

theorem opened_joins : opened (es ++ [.joins l o]) = opened es := by
  rw [opened_concat]
  exact List.append_nil _

section

variable (h : Grouped n es d)
include h

theorem le_used_concat (hl : l ∈ seen (es ++ [e])) : l ≤ max d.used e.label := by
  rw [seen_concat, List.mem_append, List.mem_singleton] at hl
  rcases hl with hl | rfl
  · exact (h.le_used l hl).trans (Nat.le_max_left ..)
  · exact Nat.le_max_right ..

theorem eq_zero_iff_concat (hv : c ≠ 0) :
    (if l = e.label then c else d.numberOf l) = 0 ↔ l ∉ seen (es ++ [e]) := by
  rw [seen_concat, List.mem_append, List.mem_singleton]
  split
  next hl => simp [hl, hv]
  next hl => simp [hl, h.numberOf_eq_zero_iff]

theorem start (hes : FreeHistory n es) (hl : l ≤ n) (hnew : l ∉ seen es) :
    Grouped n (es ++ [.opens l]) (d.start l) := by
  have hnum : ∀ k, (d.start l).numberOf k = if k = l then d.count + 1 else d.numberOf k :=
    DenseNumbering.getD_setIfInBounds (by rw [h.size_eq]; omega)
  have hseen : seen (es ++ [.opens l]) = seen es ++ [l] := seen_concat
  have hopened : opened (es ++ [.opens l]) = opened es ++ [l] := opened_concat
  have hold : ∀ {k}, k ∈ seen es → (d.start l).numberOf k = d.numberOf k := fun hk => by
    rw [hnum, if_neg (ne_of_mem_of_not_mem hk hnew)]
  have hself : (d.start l).numberOf l = d.count + 1 := by rw [hnum, if_pos rfl]
  have hcount : (d.start l).count = d.count + 1 := rfl
  -- the new label is tied to nothing, and its number is new
  have hapart : ∀ {k}, k ∈ seen es → (d.numberOf k = d.count + 1 ↔ Tied es l k) := fun {k} hk => by
    have := h.numberOf_le k
    refine ⟨fun hc => by omega, fun ht => ?_⟩
    exact absurd (hes.eq_of_tied hnew ht ▸ hk) hnew
  refine ⟨(d.size_take (.opens l)).trans h.size_eq, fun k hk => h.le_used_concat hk, fun k => ?_,
    fun k => ?_, fun k hk m hm => ?_, fun k h0 hk => ?_, ?_⟩
  · rw [hnum]
    exact h.eq_zero_iff_concat (e := .opens l) (Nat.succ_ne_zero _)
  · rw [hnum, hcount]
    have := h.numberOf_le k
    split <;> omega
  · rw [tied_concat_opens_iff]
    rw [hseen, List.mem_append, List.mem_singleton] at hk hm
    rcases hk with hk | rfl <;> rcases hm with hm | rfl
    · rw [hold hk, hold hm, h.eq_iff k hk m hm]
    · rw [hold hk, hself, hapart hk]
      exact ⟨Tied.symm, Tied.symm⟩
    · rw [hold hm, hself, eq_comm, hapart hm]
    · exact iff_of_true rfl (.refl _)
  · rw [hopened]
    rcases Nat.eq_or_lt_of_le hk with rfl | hlt
    · exact ⟨l, by simp, hself⟩
    · obtain ⟨m, hm, hmk⟩ := h.exists_opened k h0 (Nat.le_of_lt_succ hlt)
      exact ⟨m, List.mem_append_left _ hm, (hold (mem_seen_of_mem_opened hm)).trans hmk⟩
  · rw [hopened]
    have hrising := h.rising.congr fun m hm => hold (mem_seen_of_mem_opened hm)
    refine hrising.concat fun k h0 hk => ?_
    rw [hself] at hk
    obtain ⟨m, hm, hmk⟩ := h.exists_opened k h0 (Nat.le_of_lt_succ hk)
    exact ⟨m, hm, (hold (mem_seen_of_mem_opened hm)).trans hmk⟩

theorem enter (hes : FreeHistory n es) (hl : l ≤ n) (hnew : l ∉ seen es) (ho : o ∈ seen es) :
    Grouped n (es ++ [.joins l o]) (d.join l o) := by
  have hjoin : d.join l o =
      { d with slots := d.slots.setIfInBounds l (d.numberOf o), used := max d.used l } := by
    unfold DenseNumbering.join
    simp only
    rw [if_pos ((h.numberOf_eq_zero_iff l).mpr hnew)]
  have hnum : ∀ k, (d.join l o).numberOf k = if k = l then d.numberOf o else d.numberOf k := by
    rw [hjoin]
    exact DenseNumbering.getD_setIfInBounds (by rw [h.size_eq]; omega)
  have hseen : seen (es ++ [.joins l o]) = seen es ++ [l] := seen_concat
  have hold : ∀ {k}, k ∈ seen es → (d.join l o).numberOf k = d.numberOf k := fun hk => by
    rw [hnum, if_neg (ne_of_mem_of_not_mem hk hnew)]
  have hself : (d.join l o).numberOf l = d.numberOf o := by rw [hnum, if_pos rfl]
  have hcount : (d.join l o).count = d.count := by rw [hjoin]
  have hapart : ∀ {k}, k ∈ seen es → ¬ Tied es k l := fun hk ht =>
    hnew (hes.eq_of_tied hnew ht.symm ▸ hk)
  refine ⟨(d.size_take (.joins l o)).trans h.size_eq, fun k hk => ?_, fun k => ?_, fun k => ?_,
    fun k hk m hm => ?_, fun k h0 hk => ?_, ?_⟩
  · rw [hjoin]
    exact h.le_used_concat hk
  · rw [hnum]
    exact h.eq_zero_iff_concat (e := .joins l o) (mt (h.numberOf_eq_zero_iff o).mp (not_not.mpr ho))
  · rw [hnum, hcount]
    split
    · exact h.numberOf_le o
    · exact h.numberOf_le k
  · rw [tied_concat_iff]
    rw [hseen, List.mem_append, List.mem_singleton] at hk hm
    rcases hk with hk | rfl <;> rcases hm with hm | rfl
    · rw [hold hk, hold hm, h.eq_iff k hk m hm]
      have hkl := hapart hk
      have hml := hapart hm
      refine ⟨.inl, ?_⟩
      rintro (ht | ⟨hko, hmo⟩)
      · exact ht
      · exact (hko.resolve_left hkl).trans (hmo.resolve_left hml).symm
    · rw [hold hk, hself, h.eq_iff k hk o ho]
      have hkl := hapart hk
      refine ⟨fun ht => .inr ⟨.inr ht, .inl (.refl _)⟩, ?_⟩
      rintro (ht | ⟨hko, -⟩)
      · exact absurd ht hkl
      · exact hko.resolve_left hkl
    · rw [hold hm, hself, eq_comm, h.eq_iff m hm o ho]
      have hml := hapart hm
      refine ⟨fun ht => .inr ⟨.inl (.refl _), .inr ht⟩, ?_⟩
      rintro (ht | ⟨-, hmo⟩)
      · exact absurd ht.symm hml
      · exact hmo.resolve_left hml
    · exact iff_of_true rfl (.inl (.refl _))
  · rw [hcount] at hk
    rw [opened_joins]
    obtain ⟨m, hm, hmk⟩ := h.exists_opened k h0 hk
    exact ⟨m, hm, (hold (mem_seen_of_mem_opened hm)).trans hmk⟩
  · rw [opened_joins]
    exact h.rising.congr fun m hm => hold (mem_seen_of_mem_opened hm)

end

section

variable (h : Grouped n es d) (hl : l ∈ seen es) (ho : o ∈ seen es)
include h hl ho

/-- Ties after one more join of seen labels, by numbers. -/
theorem tied_joins_iff (hk : k ∈ seen es) (hm : m ∈ seen es) : Tied (es ++ [.joins l o]) k m ↔
    d.numberOf k = d.numberOf m ∨
      (d.numberOf k = d.numberOf l ∨ d.numberOf k = d.numberOf o) ∧
        (d.numberOf m = d.numberOf l ∨ d.numberOf m = d.numberOf o) := by
  rw [tied_concat_iff, h.eq_iff k hk m hm, h.eq_iff k hk l hl, h.eq_iff k hk o ho,
    h.eq_iff m hm l hl, h.eq_iff m hm o ho]

theorem join_of_eq (heq : d.numberOf l = d.numberOf o) : Grouped n (es ++ [.joins l o]) d where
  size_eq := h.size_eq
  le_used k hk := h.le_used k ((mem_seen_joins_iff hl).mp hk)
  numberOf_eq_zero_iff k := by rw [mem_seen_joins_iff hl, h.numberOf_eq_zero_iff]
  numberOf_le := h.numberOf_le
  eq_iff k hk m hm := by
    rw [mem_seen_joins_iff hl] at hk hm
    rw [h.tied_joins_iff hl ho hk hm]
    omega
  exists_opened := by rw [opened_joins]; exact h.exists_opened
  rising := by rw [opened_joins]; exact h.rising

theorem join_of_ne (hes : FreeHistory n es) (hne : d.numberOf l ≠ d.numberOf o) :
    Grouped n (es ++ [.joins l o]) (d.merge (d.numberOf l) (d.numberOf o)) := by
  have hl0 := mt (h.numberOf_eq_zero_iff l).mp (not_not.mpr hl)
  have ho0 := mt (h.numberOf_eq_zero_iff o).mp (not_not.mpr ho)
  have hlc := h.numberOf_le l
  have hoc := h.numberOf_le o
  obtain ⟨keep, hkeep⟩ : ∃ v, min (d.numberOf l) (d.numberOf o) = v := ⟨_, rfl⟩
  obtain ⟨fold, hfold⟩ : ∃ v, max (d.numberOf l) (d.numberOf o) = v := ⟨_, rfl⟩
  have hlt : keep < fold := by omega
  have hnum : ∀ k, (d.merge (d.numberOf l) (d.numberOf o)).numberOf k =
      DenseNumbering.shifted keep fold (d.numberOf k) := by
    intro k
    rw [← hkeep, ← hfold]
    by_cases hk : k ∈ seen es
    · obtain ⟨h0, hkn⟩ := hes.label_le hk
      exact DenseNumbering.numberOf_merge h0 (h.le_used k hk) (by rw [h.size_eq]; omega)
    · have hz := (h.numberOf_eq_zero_iff k).mpr hk
      rw [DenseNumbering.numberOf_merge_of_eq_zero hz (by omega), hz, eq_comm, hkeep, hfold,
        DenseNumbering.shifted_eq_zero_iff (by omega) hlt]
  refine ⟨?_, fun k hk => h.le_used k ((mem_seen_joins_iff hl).mp hk), fun k => ?_, fun k => ?_,
    fun k hk m hm => ?_, fun k h0 hk => ?_, ?_⟩
  · exact (DenseNumbering.size_closeGap ..).trans h.size_eq
  · rw [hnum, DenseNumbering.shifted_eq_zero_iff (by omega) hlt, mem_seen_joins_iff hl,
      h.numberOf_eq_zero_iff]
  · rw [hnum]
    exact DenseNumbering.shifted_le hlt (by omega) (h.numberOf_le k)
  · rw [mem_seen_joins_iff hl] at hk hm
    rw [h.tied_joins_iff hl ho hk hm, hnum, hnum, DenseNumbering.shifted_eq_iff hlt]
    omega
  · have hk' : k ≤ d.count - 1 := hk
    have hlift : DenseNumbering.lifted fold k ≠ 0 ∧ DenseNumbering.lifted fold k ≤ d.count := by
      unfold DenseNumbering.lifted
      split_ifs <;> omega
    obtain ⟨m, hm, hmk⟩ := h.exists_opened _ hlift.1 hlift.2
    rw [opened_joins]
    exact ⟨m, hm, by rw [hnum, hmk, DenseNumbering.shifted_lifted]⟩
  · rw [opened_joins]
    exact (h.rising.shifted hlt).congr fun m _ => hnum m

end

/-- **A report that may follow keeps the groups numbered.** -/
theorem take (h : Grouped n es d) (hes : FreeHistory n es) (he : e.Follows n es) :
    Grouped n (es ++ [e]) (d.take e) := by
  cases e with
  | opens l => exact h.start hes he.2.1 he.2.2
  | joins l o =>
    obtain ⟨-, hl, ho⟩ := he
    by_cases hnew : l ∈ seen es
    · have hl0 := mt (h.numberOf_eq_zero_iff l).mp (not_not.mpr hnew)
      show Grouped n _ (d.join l o)
      unfold DenseNumbering.join
      simp only
      rw [if_neg hl0]
      split
      next heq => exact h.join_of_eq hnew ho heq
      next hne => exact h.join_of_ne hnew ho hes hne
    · exact h.enter hes hl hnew ho

end Grouped

theorem FreeHistory.grouped (h : FreeHistory n es) :
    Grouped n es (es.foldl DenseNumbering.take (.fresh n)) := by
  induction h with
  | nil => exact .init n
  | concat h he ih =>
    rw [List.foldl_concat]
    exact ih.take h he

theorem Grouped.count_le (h : Grouped n es d) (hes : FreeHistory n es) : d.count ≤ n := by
  have hsub : Finset.Icc 1 d.count ⊆ (Finset.Icc 1 n).image d.numberOf := by
    intro k hk
    rw [Finset.mem_Icc] at hk
    obtain ⟨l, hl, hlk⟩ := h.exists_opened k (by omega) hk.2
    have hle := hes.label_le (mem_seen_of_mem_opened hl)
    exact Finset.mem_image.mpr ⟨l, Finset.mem_Icc.mpr ⟨by omega, hle.2⟩, hlk⟩
  have hcard := (Finset.card_le_card hsub).trans Finset.card_image_le
  simpa using hcard

theorem FreeHistory.used_le (h : FreeHistory n es) :
    (es.foldl DenseNumbering.take (.fresh n)).used ≤ n := by
  induction h with
  | nil => exact Nat.zero_le n
  | concat _ he ih =>
    rw [List.foldl_concat]
    exact (DenseNumbering.used_take_le _ _).trans (Nat.max_le.mpr ⟨ih, he.label_le.2⟩)

/-! ## Groups -/

/-- The places in the order of opening of the opened labels of a label's group. -/
def openedAt (es : List Report) (l : Nat) : Set Nat :=
  {i | ∃ m, (opened es)[i]? = some m ∧ Tied es l m}

/-- **The groups of the seen labels are numbered** in the order of opening. -/
structure NumbersGroups (n : Nat) (es : List Report) (d : DenseNumbering) : Prop where
  /-- Background and labels not seen have no number. -/
  numberOf?_eq_zero : ∀ l ≤ n, l = 0 ∨ l ∉ seen es → d.numberOf? l = some 0
  /-- The numbers of the seen labels are `1, …, count`. -/
  exists_numberOf?_iff : ∀ k, (∃ l ∈ seen es, d.numberOf? l = some k) ↔ k ≠ 0 ∧ k ≤ d.count
  /-- Seen labels have one number exactly if joins tie them. -/
  eq_iff : ∀ l ∈ seen es, ∀ k ∈ seen es, (d.numberOf? l = d.numberOf? k ↔ Tied es l k)
  /-- A group with a lower number has been opened earlier: its first opened member comes first. -/
  ordered : ∀ l ∈ seen es, ∀ k ∈ seen es, ∃ i j, IsLeast (openedAt es l) i ∧
    IsLeast (openedAt es k) j ∧ (d.numberOf l < d.numberOf k ↔ i < j)

namespace Grouped

section

variable (h : Grouped n es d)
include h

theorem numberOf?_eq (hl : l ≤ n) : d.numberOf? l = some (d.numberOf l) := by
  have hs := h.size_eq
  unfold DenseNumbering.size at hs
  unfold DenseNumbering.numberOf? DenseNumbering.numberOf
  rw [Array.getElem?_eq_getElem (by omega)]
  rfl

theorem mem_openedAt_iff (hl : l ∈ seen es) :
    i ∈ openedAt es l ↔ ∃ m, (opened es)[i]? = some m ∧ d.numberOf m = d.numberOf l := by
  refine exists_congr fun m => and_congr_right fun hm => ?_
  rw [← h.eq_iff l hl m (mem_seen_of_mem_opened (List.mem_of_getElem? hm)), eq_comm]

theorem exists_isLeast_openedAt (hl : l ∈ seen es) : ∃ i, IsLeast (openedAt es l) i := by
  have hl0 := mt (h.numberOf_eq_zero_iff l).mp (not_not.mpr hl)
  obtain ⟨m, hm, hml⟩ := h.exists_opened _ hl0 (h.numberOf_le l)
  obtain ⟨i, hi, rfl⟩ := List.getElem_of_mem hm
  have hmem : i ∈ openedAt es l :=
    (h.mem_openedAt_iff hl).mpr ⟨_, List.getElem?_eq_getElem hi, hml⟩
  exact ⟨_, isLeast_csInf ⟨i, hmem⟩⟩

/-- **The group with the lower number has been opened first.** -/
theorem lt_of_numberOf_lt (hl : l ∈ seen es) (hk : k ∈ seen es) (hi : IsLeast (openedAt es l) i)
    (hj : IsLeast (openedAt es k) j) (hlt : d.numberOf l < d.numberOf k) : i < j := by
  have hl0 := mt (h.numberOf_eq_zero_iff l).mp (not_not.mpr hl)
  obtain ⟨m, hm, hmk⟩ := (h.mem_openedAt_iff hk).mp hj.1
  obtain ⟨j', hj', m', hm', hml⟩ := h.rising j m hm _ hl0 (hmk.symm ▸ hlt)
  exact (hi.2 ((h.mem_openedAt_iff hl).mpr ⟨m', hm', hml⟩)).trans_lt hj'

theorem ordered (hl : l ∈ seen es) (hk : k ∈ seen es) : ∃ i j, IsLeast (openedAt es l) i ∧
    IsLeast (openedAt es k) j ∧ (d.numberOf l < d.numberOf k ↔ i < j) := by
  obtain ⟨i, hi⟩ := h.exists_isLeast_openedAt hl
  obtain ⟨j, hj⟩ := h.exists_isLeast_openedAt hk
  refine ⟨i, j, hi, hj, h.lt_of_numberOf_lt hl hk hi hj, fun hij => ?_⟩
  by_contra hge
  rcases Nat.eq_or_lt_of_le (not_lt.mp hge) with heq | hgt
  · obtain ⟨m, hm, hml⟩ := (h.mem_openedAt_iff hl).mp hi.1
    have := hj.2 ((h.mem_openedAt_iff hk).mpr ⟨m, hm, hml.trans heq.symm⟩)
    omega
  · have := h.lt_of_numberOf_lt hk hl hj hi hgt
    omega

theorem numbersGroups (hes : FreeHistory n es) : NumbersGroups n es d where
  numberOf?_eq_zero l hl hl0 := by
    rw [h.numberOf?_eq hl, (h.numberOf_eq_zero_iff l).mpr]
    rcases hl0 with rfl | hl0
    · exact fun hc => (hes.label_le hc).1 rfl
    · exact hl0
  exists_numberOf?_iff k := by
    constructor
    · rintro ⟨l, hl, hlk⟩
      rw [h.numberOf?_eq (hes.label_le hl).2, Option.some.injEq] at hlk
      rw [← hlk]
      exact ⟨mt (h.numberOf_eq_zero_iff l).mp (not_not.mpr hl), h.numberOf_le l⟩
    · rintro ⟨h0, hk⟩
      obtain ⟨l, hl, hlk⟩ := h.exists_opened k h0 hk
      have hl := mem_seen_of_mem_opened hl
      exact ⟨l, hl, by rw [h.numberOf?_eq (hes.label_le hl).2, hlk]⟩
  eq_iff l hl k hk := by
    rw [h.numberOf?_eq (hes.label_le hl).2, h.numberOf?_eq (hes.label_le hk).2, Option.some.injEq,
      h.eq_iff l hl k hk]
  ordered _ hl _ hk := h.ordered hl hk

end

end Grouped

/-- **A dense numbering numbers the groups of the seen labels at every moment** of a free history:
whatever part of it is taken in, none of its reports fails, labels not seen have no number, and the
groups are numbered `1, …, count` in the order in which the first member of each was opened. -/
theorem dense_numbers_groups {n : Nat} {es : List Report} (h : FreeHistory n es) :
    ∀ pre, pre <+: es → ∃ d, pre.foldlM DenseNumbering.take? (.fresh n) = some d ∧
      NumbersGroups n pre d := by
  intro pre hpre
  have hes := h.of_prefix hpre
  refine ⟨_, DenseNumbering.foldlM_take? _ fun e he l hl => ?_, hes.grouped.numbersGroups hes⟩
  have hle : l ≤ n := by
    cases e with
    | opens k =>
      obtain rfl := List.mem_singleton.mp hl
      exact (hes.label_le (List.mem_map.mpr ⟨_, he, rfl⟩)).2
    | joins k o =>
      obtain ⟨hk, ho⟩ := hes.mem_seen_of_joins he
      rcases List.mem_pair.mp hl with rfl | rfl
      · exact (hes.label_le hk).2
      · exact (hes.label_le ho).2
  rw [(Grouped.init n).size_eq]
  omega

/-- Labels opened out of order, one that is joined without having been opened, and a join that folds
the group opened second into the one opened first. -/
theorem dense_numbers_groups_out_of_order :
    let es : List Report := [.opens 4, .opens 2, .opens 5, .joins 1 2, .joins 1 4]
    FreeHistory 5 es ∧ ∃ d, es.foldlM DenseNumbering.take? (.fresh 5) = some d ∧
      d.slots = #[0, 1, 1, 0, 1, 2] ∧ NumbersGroups 5 es d := by
  intro es
  have h : FreeHistory 5 es := (((((FreeHistory.nil.concat (by decide)).concat (by decide)).concat
    (by decide)).concat (by decide)).concat (by decide))
  obtain ⟨d, hd, hgroups⟩ := dense_numbers_groups h es (List.prefix_refl es)
  have hrun : es.foldlM DenseNumbering.take? (.fresh 5) = some ⟨#[0, 1, 1, 0, 1, 2], 2, 5⟩ := rfl
  obtain rfl := Option.some.inj (hd.symm.trans hrun)
  exact ⟨h, _, hd, rfl, hgroups⟩

end Bitplane.Region
