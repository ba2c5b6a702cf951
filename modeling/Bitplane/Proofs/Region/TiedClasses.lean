import Mathlib.Data.Set.Card
import Bitplane.Proofs.Region.DenseForest

/-! # The classes of tied labels

The reported joins tie labels into classes; the class of `0` is background. A forest numbers the
other classes in the order of their smallest labels, whatever the order and number of the joins.

* `sInf_classOf`: the root of a label is the smallest label of its class.
* `ncard_classes_below`: the classes with a smallest label below a bound are as many as the roots
  there.
* `numberOf_eq_classRank`: so a class is numbered by its rank.
* `root_foldl_of_tied_iff`: reports that tie the same labels lead to the same roots.
* `resolved_ranks_classes`: the statement for all lists of reports. -/

namespace Bitplane.Region.Forest

variable {a b k l m n o : Nat} {es es' : List Report}

/-! ## Classes -/

/-- The labels tied to a label. -/
def classOf (es : List Report) (l : Nat) : Set Nat := {k | Tied es l k}

/-- **The classes of the labels `0, …, n`**, but for that of background. -/
def classes (n : Nat) (es : List Report) : Set (Set Nat) :=
  {s | ∃ l ≤ n, ¬ Tied es l 0 ∧ classOf es l = s}

/-- **The rank of a class**, from `1`: how many classes have a smallest label up to its own. -/
noncomputable def classRank (n : Nat) (es : List Report) (s : Set Nat) : Nat :=
  {t ∈ classes n es | sInf t ≤ sInf s}.ncard

/-- The reports join the two labels, in either order. -/
def Linked (es : List Report) (l o : Nat) : Prop := .joins l o ∈ es ∨ .joins o l ∈ es

theorem Tied.of_linked (h : Linked es l o) : Tied es l o :=
  h.elim (fun hlo => .rel _ _ hlo) fun hol => Tied.symm (.rel _ _ hol)

/-- **Ties do not depend on the order of the joins**, their direction, or how often they occur. -/
theorem Tied.of_linked_iff (h : ∀ l o, Linked es l o ↔ Linked es' l o) (hab : Tied es a b) :
    Tied es' a b := by
  induction hab with
  | rel l o hlo => exact .of_linked ((h l o).mp (.inl hlo))
  | refl l => exact .refl l
  | symm l o _ ih => exact ih.symm
  | trans l o k _ _ ih1 ih2 => exact ih1.trans ih2

theorem classOf_eq_iff : classOf es a = classOf es b ↔ Tied es a b := by
  constructor
  · intro h
    have hb : b ∈ classOf es b := .refl b
    rwa [← h] at hb
  · intro h
    ext k
    exact ⟨h.symm.trans, h.trans⟩

/-! ## Classes and roots -/

section

variable (h : Within n es)
include h

theorem tied_root (l : Nat) : Tied es l ((es.foldl take (singletons n)).root l) :=
  (root_eq_iff_tied h).mp (root_root _ l).symm

/-- **The root of a label is the smallest label of its class.** -/
theorem sInf_classOf (l : Nat) : sInf (classOf es l) = (es.foldl take (singletons n)).root l := by
  have hmem : (es.foldl take (singletons n)).root l ∈ classOf es l := tied_root h l
  refine Nat.le_antisymm (Nat.sInf_le hmem) (le_csInf ⟨_, hmem⟩ fun k hk => ?_)
  rw [(root_eq_iff_tied h).mpr hk]
  exact root_le _ k

theorem tied_zero_iff : Tied es l 0 ↔ (es.foldl take (singletons n)).root l = 0 := by
  rw [← root_eq_iff_tied h, Nat.le_zero.mp (root_le _ 0)]

theorem ncard_classes_below (hk : k ≤ n + 1) :
    {s ∈ classes n es | sInf s < k}.ncard =
      Nat.count (es.foldl take (singletons n)).IsHead k := by
  have himage : {s ∈ classes n es | sInf s < k} =
      classOf es '' ((Finset.range k).filter (es.foldl take (singletons n)).IsHead) := by
    ext s
    simp only [Set.mem_ofPred_eq, Set.mem_image, Finset.coe_filter, Finset.mem_range]
    constructor
    · rintro ⟨⟨l, -, hl, rfl⟩, hlt⟩
      rw [sInf_classOf h] at hlt
      rw [tied_zero_iff h] at hl
      exact ⟨_, ⟨hlt, isHead_root hl⟩, classOf_eq_iff.mpr (tied_root h l).symm⟩
    · rintro ⟨m, ⟨hlt, h0, hm⟩, rfl⟩
      refine ⟨⟨m, by omega, ?_, rfl⟩, ?_⟩
      · rwa [tied_zero_iff h, hm]
      · rwa [sInf_classOf h, hm]
  have hinj : Set.InjOn (classOf es)
      ((Finset.range k).filter (es.foldl take (singletons n)).IsHead) := by
    intro a ha b hb hab
    rw [Finset.mem_coe, Finset.mem_filter] at ha hb
    rw [← ha.2.2, ← hb.2.2, ← sInf_classOf h, ← sInf_classOf h, hab]
  rw [himage, hinj.ncard_image, Set.ncard_coe_finset, Nat.count_eq_card_filter_range]

/-- **A class is numbered by its rank.** -/
theorem numberOf_eq_classRank (hl : l ≤ n) :
    (es.foldl take (singletons n)).numberOf l = classRank n es (classOf es l) := by
  have hle := root_le (es.foldl take (singletons n)) l
  have hcount := ncard_classes_below h (k := (es.foldl take (singletons n)).root l + 1) (by omega)
  unfold classRank numberOf
  rw [sInf_classOf h, ← hcount]
  simp only [Nat.lt_succ_iff]

theorem ncard_classes :
    (classes n es).ncard = Nat.count (es.foldl take (singletons n)).IsHead (n + 1) := by
  rw [← ncard_classes_below h le_rfl]
  congr 1
  ext s
  refine ⟨fun hs => ⟨hs, ?_⟩, And.left⟩
  obtain ⟨l, hl, -, rfl⟩ := hs
  have := root_le (es.foldl take (singletons n)) l
  rw [sInf_classOf h]
  omega

theorem eq_of_tied (ha : n < a) (hab : Tied es a b) : b = a := by
  have heq := hab.eq_of_forall (v := fun k => decide (k = a)) fun l o hlo => by
    have hl := h _ hlo l (by simp [Report.labels])
    have ho := h _ hlo o (by simp [Report.labels])
    rw [decide_eq_false (by omega), decide_eq_false (by omega)]
  simpa using heq.symm

theorem Tied.of_forall_le (ht : ∀ a ≤ n, ∀ b ≤ n, Tied es a b → Tied es' a b) (hab : Tied es a b) :
    Tied es' a b := by
  rcases Nat.lt_or_ge n a with ha | ha
  · rw [eq_of_tied h ha hab]
    exact .refl a
  rcases Nat.lt_or_ge n b with hb | hb
  · rw [eq_of_tied h hb hab.symm]
    exact .refl b
  · exact ht a ha b hb hab

end

/-- **Reports that tie the same labels lead to the same roots.** -/
theorem root_foldl_of_tied_iff (h : Within n es) (h' : Within n es')
    (ht : ∀ a ≤ n, ∀ b ≤ n, Tied es' a b ↔ Tied es a b) (k : Nat) :
    (es'.foldl take (singletons n)).root k = (es.foldl take (singletons n)).root k := by
  rw [← sInf_classOf h, ← sInf_classOf h']
  congr 1
  ext b
  exact ⟨Tied.of_forall_le h' fun a ha b hb => (ht a ha b hb).mp,
    Tied.of_forall_le h fun a ha b hb => (ht a ha b hb).mpr⟩

theorem resolved_foldl_of_tied_iff (h : Within n es) (h' : Within n es')
    (ht : ∀ a ≤ n, ∀ b ≤ n, Tied es' a b ↔ Tied es a b) :
    (es'.foldl take (singletons n)).resolved = (es.foldl take (singletons n)).resolved := by
  have hroot := root_foldl_of_tied_iff h h' ht
  rw [resolved_eq, resolved_eq, size_foldl_take, size_foldl_take, count_isHead_congr hroot,
    funext (numberOf_congr hroot)]

open Classical in
/-- **A forest numbers the classes of tied labels by their smallest labels.** Whatever the joins of
labels up to `n`, none of them fails; a label tied to background resolves to `0`, any other to the
rank of its class, and the count is that of the classes. So joins that tie the same labels resolve
to the same, in particular those that link the same pairs in another order or direction, or more
often. -/
theorem resolved_ranks_classes {n : Nat} {es : List Report} (h : Within n es) :
    ∃ f, es.foldlM take? (.singletons n) = some f ∧ f.resolved.1.size = n + 1 ∧
      (∀ l ≤ n, f.resolved.1[l]? =
        some (if Tied es l 0 then 0 else classRank n es (classOf es l))) ∧
      f.resolved.2 = (classes n es).ncard ∧ f.resolved.2 ≤ n ∧
      ∀ es', Within n es' →
        (∀ a ≤ n, ∀ b ≤ n, Tied es' a b ↔ Tied es a b) ∨ (∀ l o, Linked es' l o ↔ Linked es l o) →
          (es'.foldl take (.singletons n)).resolved = f.resolved := by
  have hsize : (es.foldl take (singletons n)).size = n + 1 := by
    rw [size_foldl_take, size_singletons]
  refine ⟨_, foldlM_take? _ fun e he l hl => ?_, ?_, fun l hl => ?_, ?_, ?_,
    fun es' h' hsame => ?_⟩
  · have := h e he l hl
    rw [size_singletons]
    omega
  · rw [resolved_eq, hsize]
    simp
  · rw [resolved_eq, hsize, Array.getElem?_map, Array.getElem?_range, if_pos (by omega),
      Option.map_some]
    congr 1
    split
    next h0 => exact numberOf_of_root_eq_zero ((tied_zero_iff h).mp h0)
    next => exact numberOf_eq_classRank h hl
  · rw [resolved_eq, hsize, ncard_classes h]
  · rw [resolved_eq, hsize]
    show Nat.count _ (n + 1) ≤ n
    rw [Nat.count_succ', if_neg fun hc => hc.1 rfl]
    exact Nat.count_le _
  · refine resolved_foldl_of_tied_iff h h' ?_
    rcases hsame with ht | hlink
    · exact ht
    · exact fun a _ b _ => ⟨.of_linked_iff hlink, .of_linked_iff fun l o => (hlink l o).symm⟩

/-- A label joined to background late, two joined by way of a third, and one on its own. -/
theorem resolved_ranks_classes_background :
    let es : List Report := [.joins 5 3, .joins 3 1, .joins 2 0]
    let es' : List Report := [.joins 0 2, .joins 1 3, .joins 3 5, .joins 1 3]
    Within 5 es ∧ Within 5 es' ∧ (∀ l o, Linked es' l o ↔ Linked es l o) ∧
      (classes 5 es).ncard = 2 ∧ ¬ Tied es 4 0 ∧ classRank 5 es (classOf es 4) = 2 ∧
      (es'.foldl take (.singletons 5)).resolved = (#[0, 1, 0, 1, 2, 1], 2) := by
  intro es es'
  have h : Within 5 es := by unfold Within; decide
  have h' : Within 5 es' := by unfold Within; decide
  have hlink : ∀ l o, Linked es' l o ↔ Linked es l o := by
    intro l o
    simp only [Linked, es, es', List.mem_cons, Report.joins.injEq, List.not_mem_nil, or_false]
    grind
  have hres : (es.foldl take (.singletons 5)).resolved = (#[0, 1, 0, 1, 2, 1], 2) := by
    simp only [es]
    decide +kernel
  obtain ⟨f, -, -, htable, hcount, -, hsame⟩ := resolved_ranks_classes h
  have hf : f.resolved = (#[0, 1, 0, 1, 2, 1], 2) :=
    (hsame es h (.inr fun _ _ => Iff.rfl)).symm.trans hres
  have hrank := htable 4 (by decide)
  rw [hf] at hcount hrank
  have hrank' := Option.some.inj hrank
  split at hrank'
  next => exact absurd hrank' (by decide)
  next h0 => exact ⟨h, h', hlink, hcount.symm, h0, hrank'.symm, (hsame es' h' (.inr hlink)).trans hf⟩

end Bitplane.Region.Forest
