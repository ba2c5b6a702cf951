import Bitplane.Proofs.Ranks
import Bitplane.Region.ForestRoots

/-! # The sets of a forest

`join` makes the smaller of two roots the root of both sets (`root_join`). After a list of reports:

* `tied_concat_iff`, `root_eq_iff_tied`: labels have one root exactly if a chain of reported joins
  ties them.
* `root_foldl_congr`: the roots do not depend on how many labels the forest has.
* `resolved_eq`: a set is numbered by the rank of its root among all roots but that of background
  (`numberOf`). -/

namespace Bitplane.Region.Forest

variable {f f' : Forest} {a b k l o n : Nat} {es : List Report}

/-! ## Joining -/

theorem root_hang_of_root (h : a ≤ b) (ha : f.root a = a) (hb : f.root b = b) (hs : b < f.size)
    (k : Nat) : (f.hang b a h).root k = if f.root k = b then a else f.root k := by
  rw [root_eq_self_iff] at ha
  induction k using Nat.strongRecOn with
  | ind k ih =>
    have hu := f.up_hang h k
    by_cases hk : k = b
    · subst hk
      rw [if_pos ⟨rfl, hs⟩] at hu
      rw [hb, if_pos rfl]
      rcases Nat.eq_or_lt_of_le h with rfl | hlt
      · exact root_of_up_eq hu
      · have hua := f.up_hang h a
        rw [if_neg (by omega), ha] at hua
        rw [← root_up, hu, root_of_up_eq hua]
    · rw [if_neg fun hc => hk hc.1] at hu
      by_cases hup : f.up k = k
      · rw [root_of_up_eq (hu.trans hup), root_of_up_eq hup, if_neg hk]
      · have := f.up_le k
        rw [← root_up, hu, ih (f.up k) (by omega), root_up]

theorem size_link (f : Forest) (a b : Nat) : (f.link a b).size = f.size := by
  unfold link
  split <;> exact size_hang ..

theorem root_link (ha : f.root a = a) (hb : f.root b = b) (hsa : a < f.size) (hsb : b < f.size)
    (k : Nat) : (f.link a b).root k =
      if f.root k = a ∨ f.root k = b then min a b else f.root k := by
  unfold link
  split
  next h =>
    rw [root_hang_of_root h ha hb hsb, Nat.min_eq_left h]
    by_cases hka : f.root k = a <;> simp [hka]
  next h =>
    rw [root_hang_of_root _ hb ha hsa, Nat.min_eq_right (by omega)]
    by_cases hkb : f.root k = b <;> simp [hkb]

theorem size_join (f : Forest) (l o : Nat) : (f.join l o).size = f.size := by
  unfold join
  rw [size_link, size_find, size_find]

theorem size_take (f : Forest) (e : Report) : (f.take e).size = f.size := by
  cases e with
  | opens l => rfl
  | joins l o => exact size_join f l o

theorem size_foldl_take (es : List Report) (f : Forest) : (es.foldl take f).size = f.size := by
  induction es generalizing f with
  | nil => rfl
  | cons e es ih => rw [List.foldl_cons, ih, size_take]

/-- **A join makes the smaller of two roots that of both sets**, and leaves all others alone. -/
theorem root_join (hl : l < f.size) (ho : o < f.size) (k : Nat) : (f.join l o).root k =
    if f.root k = f.root l ∨ f.root k = f.root o then min (f.root l) (f.root o) else f.root k := by
  have hroot : ∀ k, ((f.find l).1.find o).1.root k = f.root k := fun k => by
    rw [root_find, root_find]
  have hsize : ((f.find l).1.find o).1.size = f.size := by rw [size_find, size_find]
  have hl' := f.root_le l
  have ho' := f.root_le o
  have hrl : ((f.find l).1.find o).1.root (f.root l) = f.root l := by rw [hroot, root_root]
  have hro : ((f.find l).1.find o).1.root (f.root o) = f.root o := by rw [hroot, root_root]
  unfold join
  simp only [find_snd, root_find]
  rw [root_link hrl hro (by omega) (by omega), hroot]

theorem root_join_eq_iff (hl : l < f.size) (ho : o < f.size) :
    (f.join l o).root a = (f.join l o).root b ↔ f.root a = f.root b ∨
      (f.root a = f.root l ∨ f.root a = f.root o) ∧
        (f.root b = f.root l ∨ f.root b = f.root o) := by
  rw [root_join hl ho, root_join hl ho]
  split <;> split <;> omega

theorem root_singletons (n k : Nat) : (singletons n).root k = k := by
  refine root_of_up_eq ?_
  unfold up singletons
  simp only [Array.getElem?_range]
  split <;> rfl

theorem size_singletons (n : Nat) : (singletons n).size = n + 1 := by simp [singletons, size]

/-! ## Tied labels -/

/-- All labels that the reports name are up to `n`. -/
def Within (n : Nat) (es : List Report) : Prop := ∀ e ∈ es, ∀ l ∈ e.labels, l ≤ n

/-- **A chain of reported joins ties the labels.** -/
def Tied (es : List Report) : Nat → Nat → Prop := Relation.EqvGen fun l o => .joins l o ∈ es

theorem Within.mono {es' : List Report} (h : Within n es) (hs : es' ⊆ es) : Within n es' :=
  fun e he => h e (hs he)

theorem Tied.mono {es' : List Report} (h : Tied es a b) (hs : es ⊆ es') : Tied es' a b :=
  Relation.EqvGen.mono (fun _ _ hj => hs hj) _ _ h

theorem Tied.eq_of_forall {α : Type*} {v : Nat → α} (h : Tied es a b)
    (hv : ∀ l o, .joins l o ∈ es → v l = v o) : v a = v b := by
  induction h with
  | rel l o hlo => exact hv l o hlo
  | refl l => rfl
  | symm l o _ ih => exact ih.symm
  | trans l o k _ _ ih1 ih2 => exact ih1.trans ih2

theorem Tied.symm (h : Tied es a b) : Tied es b a := Relation.EqvGen.symm _ _ h

theorem Tied.trans (h : Tied es a b) (h' : Tied es b k) : Tied es a k :=
  Relation.EqvGen.trans _ _ _ h h'

/-- **One more join ties just the labels tied to either of its two.** -/
theorem tied_concat_iff : Tied (es ++ [.joins l o]) a b ↔
    Tied es a b ∨ (Tied es a l ∨ Tied es a o) ∧ (Tied es b l ∨ Tied es b o) := by
  have hsub : es ⊆ es ++ [.joins l o] := List.subset_append_left ..
  constructor
  · intro h
    induction h with
    | rel a b hab =>
      rcases List.mem_append.mp hab with hab | hab
      · exact .inl (.rel _ _ hab)
      · obtain ⟨rfl, rfl⟩ : a = l ∧ b = o := by simpa using hab
        exact .inr ⟨.inl (.refl _), .inr (.refl _)⟩
    | refl a => exact .inl (.refl _)
    | symm a b _ ih =>
      rcases ih with hab | ⟨ha, hb⟩
      · exact .inl hab.symm
      · exact .inr ⟨hb, ha⟩
    | trans a b k _ _ ih1 ih2 =>
      rcases ih1 with hab | ⟨ha, hb⟩
      · rcases ih2 with hbk | ⟨hb, hk⟩
        · exact .inl (hab.trans hbk)
        · exact .inr ⟨hb.imp hab.trans hab.trans, hk⟩
      · rcases ih2 with hbk | ⟨-, hk⟩
        · exact .inr ⟨ha, hb.imp hbk.symm.trans hbk.symm.trans⟩
        · exact .inr ⟨ha, hk⟩
  · rintro (h | ⟨ha, hb⟩)
    · exact h.mono hsub
    · have hlo : Tied (es ++ [.joins l o]) l o := .rel _ _ (List.mem_append_right _ (by simp))
      have key : ∀ {k}, Tied es k l ∨ Tied es k o → Tied (es ++ [.joins l o]) k l := by
        rintro k (hk | hk)
        · exact hk.mono hsub
        · exact (hk.mono hsub).trans hlo.symm
      exact (key ha).trans (key hb).symm

theorem tied_concat_opens_iff : Tied (es ++ [.opens l]) a b ↔ Tied es a b := by
  unfold Tied
  simp

/-- **Labels have one root exactly if reports tie them.** -/
theorem root_eq_iff_tied (h : Within n es) :
    (es.foldl take (singletons n)).root a = (es.foldl take (singletons n)).root b ↔
      Tied es a b := by
  induction es using List.reverseRecOn generalizing a b with
  | nil =>
    rw [List.foldl_nil, root_singletons, root_singletons]
    constructor
    · rintro rfl
      exact .refl _
    · intro ht
      exact ht.eq_of_forall (v := id) fun l o hlo => by cases hlo
  | append_singleton es e ih =>
    have hes : Within n es := h.mono (List.subset_append_left ..)
    have hsize : (es.foldl take (singletons n)).size = n + 1 := by
      rw [size_foldl_take, size_singletons]
    rw [List.foldl_concat]
    cases e with
    | opens m => exact (ih hes).trans tied_concat_opens_iff.symm
    | joins l o =>
      have hle := h (.joins l o) (List.mem_append_right _ (by simp))
      have hl := hle l (by simp [Report.labels])
      have ho := hle o (by simp [Report.labels])
      rw [take, root_join_eq_iff (by omega) (by omega), tied_concat_iff]
      simp only [ih hes]

/-- Forests with the same roots have the same roots after the same reports, whatever their sizes. -/
theorem root_foldl_congr {m : Nat} (hs : f.size = m + 1) (hs' : m < f'.size)
    (h : Within m es) (hr : ∀ k, f.root k = f'.root k) (k : Nat) :
    (es.foldl take f).root k = (es.foldl take f').root k := by
  induction es generalizing f f' with
  | nil => exact hr k
  | cons e es ih =>
    have h1 : (f.take e).size = m + 1 := by rw [size_take, hs]
    have h2 : m < (f'.take e).size := by rw [size_take]; exact hs'
    rw [List.foldl_cons, List.foldl_cons]
    refine ih h1 h2 (h.mono (List.subset_cons_self ..)) fun k => ?_
    cases e with
    | opens l => exact hr k
    | joins l o =>
      have hl := h _ (List.mem_cons_self ..) l (by simp [Report.labels])
      have ho := h _ (List.mem_cons_self ..) o (by simp [Report.labels])
      rw [take, take, root_join (by omega) (by omega), root_join (by omega) (by omega), hr, hr, hr]

/-! ## Numbers of sets -/

/-- **The label is the root of a set**, and not background. -/
def IsHead (f : Forest) (l : Nat) : Prop := l ≠ 0 ∧ f.root l = l

instance (f : Forest) : DecidablePred f.IsHead := fun _ => inferInstanceAs (Decidable (_ ∧ _))

/-- **The number of a label's set**: how many sets have a root up to its own. -/
def numberOf (f : Forest) (l : Nat) : Nat := Nat.count f.IsHead (f.root l + 1)

theorem numberOf_root (f : Forest) (l : Nat) : f.numberOf (f.root l) = f.numberOf l := by
  unfold numberOf
  rw [root_root]

theorem numberOf_of_root_eq_zero (h : f.root l = 0) : f.numberOf l = 0 := by
  unfold numberOf
  rw [h, Nat.count_succ_eq_count fun hc => hc.1 rfl, Nat.count_zero]

theorem numberOf_of_isHead (h : f.IsHead l) : f.numberOf l = Nat.count f.IsHead l + 1 := by
  unfold numberOf
  rw [h.2]
  exact Nat.count_succ_eq_succ_count h

theorem isHead_root (h : f.root l ≠ 0) : f.IsHead (f.root l) := ⟨h, f.root_root l⟩

theorem numberOf_pos (h : f.root l ≠ 0) : 0 < f.numberOf l := by
  rw [← numberOf_root, numberOf_of_isHead (isHead_root h)]
  omega

theorem numberOf_le_count (h : l < n) : f.numberOf l ≤ Nat.count f.IsHead n :=
  Nat.count_monotone _ ((Nat.succ_le_succ (f.root_le l)).trans h)

theorem count_isHead_le (f : Forest) (n : Nat) : Nat.count f.IsHead (n + 1) ≤ n := by
  induction n with
  | zero => exact (Nat.count_succ_eq_count fun hc => hc.1 rfl).le
  | succ n ih =>
    rw [Nat.count_succ]
    split <;> omega

theorem numberOf_eq_iff (hl : f.root l ≠ 0) (hk : f.root k ≠ 0) :
    f.numberOf l = f.numberOf k ↔ f.root l = f.root k := by
  constructor
  · intro h
    rw [← numberOf_root, ← f.numberOf_root k, numberOf_of_isHead (isHead_root hl),
      numberOf_of_isHead (isHead_root hk)] at h
    exact Nat.count_injective (isHead_root hl) (isHead_root hk) (Nat.succ.inj h)
  · intro h
    rw [← numberOf_root, h, numberOf_root]

theorem resolved_upTo (f : Forest) (n : Nat) : (List.range n).foldl f.number (#[], 0) =
    ((Array.range n).map f.numberOf, Nat.count f.IsHead n) := by
  induction n with
  | zero => simp
  | succ n ih =>
    rw [List.range_succ, List.foldl_concat, ih, Array.range_succ, Array.map_append]
    unfold number
    simp only
    by_cases h0 : n = 0
    · subst h0
      have hr : f.root 0 = 0 := Nat.le_zero.mp (f.root_le 0)
      rw [if_pos rfl, Nat.count_succ_eq_count fun hc => hc.1 rfl]
      simp [numberOf_of_root_eq_zero hr]
    · rw [if_neg h0]
      by_cases hr : f.root n = n
      · have hh : f.IsHead n := ⟨h0, hr⟩
        rw [if_pos hr, Nat.count_succ_eq_succ_count hh]
        simp [numberOf_of_isHead hh]
      · have hlt : f.root n < n := lt_of_le_of_ne (f.root_le n) hr
        rw [if_neg hr, Nat.count_succ_eq_count fun hc => hr hc.2]
        simp [hlt, numberOf_root]

/-- **Sets are numbered in the order of their roots.** -/
theorem resolved_eq (f : Forest) :
    f.resolved = ((Array.range f.size).map f.numberOf, Nat.count f.IsHead f.size) :=
  f.resolved_upTo f.size

end Bitplane.Region.Forest
