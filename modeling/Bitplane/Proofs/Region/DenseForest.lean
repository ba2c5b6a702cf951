import Bitplane.Proofs.Region.JoinedSets
import Bitplane.Region.DenseNumbering

/-! # Dense numberings and forests number alike

A *history* is a list of reports that mentions the labels `1, 2, …` in order: a label is first
opened, or first joined to one mentioned before it, and only mentioned labels are joined later
(`mentioned?`). After every part of a history the dense numbering holds what the forest would
resolve.

* `numberOf_join`: a join of two sets moves the numbers of the forest as `shifted` does.
* `Agrees`: the forest and the dense numbering give the mentioned labels one number; `Agrees.take`,
  `Agrees.foldl`: a report and a history keep that.
* `dense_eq_resolved`: the statement for all histories and their prefixes. -/

namespace Bitplane.Region

variable {f f' : Forest} {d : DenseNumbering} {e : Report} {es pre : List Report}
  {a b k l m m' n o p q : Nat}

/-! ## Histories -/

/-- The labels mentioned after a report, when it was `1, …, m` before it; none if the report is out
of turn. -/
def Report.mention (m : Nat) : Report → Option Nat
  | .opens l => if l = m + 1 then some (m + 1) else none
  | .joins l o => if l ≠ 0 ∧ l ≤ m + 1 ∧ o ≠ 0 ∧ o ≤ m then some (max m l) else none

/-- **The reports mention exactly `1, …, m`**, each label in turn; none if they do not. -/
def mentioned? (es : List Report) : Option Nat := es.foldlM Report.mention 0

/-- A report opens the next label, joins it to another, or joins two that are mentioned. -/
theorem Report.mention_cases (h : e.mention m = some m') :
    (e = .opens (m + 1) ∧ m' = m + 1) ∨
      (∃ o, e = .joins (m + 1) o ∧ o ≠ 0 ∧ o ≤ m ∧ m' = m + 1) ∨
      ∃ l o, e = .joins l o ∧ l ≠ 0 ∧ l ≤ m ∧ o ≠ 0 ∧ o ≤ m ∧ m' = m := by
  cases e with
  | opens l =>
    rw [mention, Option.ite_none_right_eq_some, Option.some.injEq] at h
    exact .inl ⟨by rw [h.1], h.2.symm⟩
  | joins l o =>
    rw [mention, Option.ite_none_right_eq_some, Option.some.injEq] at h
    obtain ⟨⟨hl0, hl, ho0, ho⟩, rfl⟩ := h
    rcases Nat.lt_or_ge m l with hlt | hle
    · obtain rfl : l = m + 1 := by omega
      exact .inr (.inl ⟨o, rfl, ho0, ho, by omega⟩)
    · exact .inr (.inr ⟨l, o, rfl, hl0, hle, ho0, ho, by omega⟩)

theorem Report.le_of_mention (h : e.mention m = some m') : m ≤ m' ∧ ∀ l ∈ e.labels, l ≤ m' := by
  rcases mention_cases h with ⟨rfl, rfl⟩ | ⟨o, rfl, -, ho, rfl⟩ | ⟨l, o, rfl, -, hl, -, ho, rfl⟩ <;>
    simp [labels] <;> omega

theorem le_of_foldlM_mention (h : es.foldlM Report.mention m = some n) :
    m ≤ n ∧ Forest.Within n es := by
  induction es generalizing m with
  | nil =>
    obtain rfl : m = n := by simpa using h
    exact ⟨le_refl m, fun e he => by cases he⟩
  | cons e es ih =>
    rw [List.foldlM_cons] at h
    obtain ⟨m', he, hes⟩ := Option.bind_eq_some_iff.mp h
    obtain ⟨h1, h2⟩ := Report.le_of_mention he
    obtain ⟨h3, h4⟩ := ih hes
    refine ⟨h1.trans h3, fun e' he' => ?_⟩
    rcases List.mem_cons.mp he' with rfl | he'
    · exact fun l hl => (h2 l hl).trans h3
    · exact h4 e' he'

theorem mentioned?_of_prefix (h : mentioned? es = some k) (hp : pre <+: es) :
    ∃ m ≤ k, mentioned? pre = some m := by
  obtain ⟨rest, rfl⟩ := hp
  unfold mentioned? at h
  rw [List.foldlM_append] at h
  obtain ⟨m, hm, hrest⟩ := Option.bind_eq_some_iff.mp h
  exact ⟨m, (le_of_foldlM_mention hrest).1, hm⟩

/-! ## Numbers after a join -/

namespace Forest

theorem isHead_congr (h : ∀ k, f'.root k = f.root k) : f'.IsHead k ↔ f.IsHead k := by
  unfold IsHead
  rw [h]

theorem count_isHead_congr (h : ∀ k, f'.root k = f.root k) (n : Nat) :
    Nat.count f'.IsHead n = Nat.count f.IsHead n :=
  Rank.count_congr fun _ _ => isHead_congr h

theorem numberOf_congr (h : ∀ k, f'.root k = f.root k) (k : Nat) :
    f'.numberOf k = f.numberOf k := by
  unfold numberOf
  rw [h, count_isHead_congr h]

theorem numberOf_lt (h : f.root l < f.root k) : f.numberOf l < f.numberOf k := by
  rw [← f.numberOf_root k, numberOf_of_isHead (isHead_root (by omega))]
  exact Nat.lt_succ_of_le (Nat.count_monotone _ (Nat.succ_le_of_lt h))

section Fold

/-! A forest `f'` in which the set of the root `q` has gone into that of the root `p`. -/

variable (hp : f.IsHead p) (hq : f.IsHead q) (hpq : p < q)
  (hr : ∀ k, f'.root k = if f.root k = p ∨ f.root k = q then p else f.root k)
include hp hpq hr

theorem isHead_of_fold (k : Nat) : f'.IsHead k ↔ f.IsHead k ∧ k ≠ q := by
  have hp0 := hp.1
  have hpr := hp.2
  unfold IsHead
  rw [hr]
  split
  next h =>
    constructor
    · rintro ⟨h0, rfl⟩
      exact ⟨⟨h0, hpr⟩, hpq.ne⟩
    · rintro ⟨⟨h0, hk⟩, hne⟩
      exact ⟨h0, by omega⟩
  next h =>
    constructor
    · rintro ⟨h0, hk⟩
      exact ⟨⟨h0, hk⟩, by omega⟩
    · rintro ⟨⟨h0, hk⟩, -⟩
      exact ⟨h0, hk⟩

include hq

theorem count_isHead_of_fold (hn : q < n) :
    Nat.count f'.IsHead n + 1 = Nat.count f.IsHead n :=
  Rank.count_erase_of_lt hq (fun k _ => isHead_of_fold hp hpq hr k) hn

theorem numberOf_of_fold (k : Nat) : f'.numberOf k =
    DenseNumbering.shifted (f.numberOf p) (f.numberOf q) (f.numberOf k) := by
  have hcount := fun n (hn : n ≤ q) =>
    Rank.count_erase_of_le (n := n) (fun k _ => isHead_of_fold hp hpq hr k) hn
  unfold DenseNumbering.shifted
  rcases Nat.lt_trichotomy (f.root k) q with hk | hk | hk
  · have hroot : f'.root k = f.root k := by rw [hr]; split <;> omega
    have hkq : f.root k < f.root q := hq.2.symm ▸ hk
    have hlt : f.numberOf k < f.numberOf q := numberOf_lt hkq
    rw [if_neg (by omega), if_neg (by omega)]
    unfold numberOf
    rw [hroot, hcount _ (by omega)]
  · have hroot : f'.root k = p := by rw [hr, if_pos (.inr hk)]
    have heq : f.numberOf k = f.numberOf q := by rw [← numberOf_root, hk]
    rw [if_pos heq]
    unfold numberOf
    rw [hroot, hcount _ (by omega), hp.2]
  · have hroot : f'.root k = f.root k := by rw [hr]; split <;> omega
    have hqk : f.root q < f.root k := hq.2.symm ▸ hk
    have hlt : f.numberOf q < f.numberOf k := numberOf_lt hqk
    have := count_isHead_of_fold hp hq hpq hr (n := f.root k + 1) (by omega)
    rw [if_neg (by omega), if_pos hlt]
    unfold numberOf
    rw [hroot]
    omega

end Fold

section Join

variable (hl : l < f.size) (ho : o < f.size)
include hl ho

theorem root_join_of_eq (h : f.root l = f.root o) (k : Nat) : (f.join l o).root k = f.root k := by
  rw [root_join hl ho]
  split <;> omega

theorem root_join_of_lt (hlk : l < k) (hok : o < k) (hk : f.root k = k) :
    (f.join l o).root k = k := by
  have h1 := f.root_le l
  have h2 := f.root_le o
  rw [root_join hl ho, hk, if_neg (by omega)]

variable (hl0 : f.root l ≠ 0) (ho0 : f.root o ≠ 0) (hne : f.root l ≠ f.root o)
include hl0 ho0 hne

/-- **A join of two sets moves the numbers** as a dense numbering moves its own. -/
theorem numberOf_join (k : Nat) : (f.join l o).numberOf k =
    DenseNumbering.shifted (min (f.numberOf l) (f.numberOf o)) (max (f.numberOf l) (f.numberOf o))
      (f.numberOf k) := by
  have hr := fun k => root_join hl ho k
  rcases Nat.lt_or_gt_of_ne hne with hlt | hlt
  · have hnum := numberOf_lt hlt
    rw [Nat.min_eq_left hnum.le, Nat.max_eq_right hnum.le, ← f.numberOf_root l, ← f.numberOf_root o]
    refine numberOf_of_fold (isHead_root hl0) (isHead_root ho0) hlt (fun k => ?_) k
    rw [hr, Nat.min_eq_left hlt.le]
  · have hnum := numberOf_lt hlt
    rw [Nat.min_eq_right hnum.le, Nat.max_eq_left hnum.le, ← f.numberOf_root l, ← f.numberOf_root o]
    refine numberOf_of_fold (isHead_root ho0) (isHead_root hl0) hlt (fun k => ?_) k
    rw [hr, Nat.min_eq_right hlt.le]
    exact if_congr or_comm rfl rfl

theorem count_isHead_join (hln : f.root l < n) (hon : f.root o < n) :
    Nat.count (f.join l o).IsHead n + 1 = Nat.count f.IsHead n := by
  have hr := fun k => root_join hl ho k
  rcases Nat.lt_or_gt_of_ne hne with hlt | hlt
  · refine count_isHead_of_fold (isHead_root hl0) (isHead_root ho0) hlt (fun k => ?_) hon
    rw [hr, Nat.min_eq_left hlt.le]
  · refine count_isHead_of_fold (isHead_root ho0) (isHead_root hl0) hlt (fun k => ?_) hln
    rw [hr, Nat.min_eq_right hlt.le]
    exact if_congr or_comm rfl rfl

end Join

end Forest

/-! ## The dense numbering, entry by entry -/

namespace DenseNumbering

theorem size_closeGap (keep fold : Nat) (slots : Array Nat) (n : Nat) :
    (closeGap keep fold slots n).size = slots.size := by
  induction n generalizing slots with
  | zero => rfl
  | succ n ih => rw [closeGap, ih, Array.size_modify]

theorem getElem?_closeGap (keep fold : Nat) (slots : Array Nat) (n l : Nat) :
    (closeGap keep fold slots n)[l]? =
      if l ≠ 0 ∧ l ≤ n then slots[l]?.map (shifted keep fold) else slots[l]? := by
  induction n generalizing slots with
  | zero => rw [closeGap, if_neg (by omega)]
  | succ n ih =>
    rw [closeGap, ih, Array.getElem?_modify]
    by_cases hl : l = n + 1
    · subst hl
      rw [if_neg (by omega), if_pos rfl, if_pos (by omega)]
    · rw [if_neg (Ne.symm hl)]
      exact if_congr (by omega) rfl rfl

theorem size_take (d : DenseNumbering) (e : Report) : (d.take e).size = d.size := by
  unfold take size
  cases e with
  | opens l => simp [start]
  | joins l o =>
    unfold join
    simp only
    split
    · simp
    · split
      · rfl
      · exact size_closeGap ..

theorem getD_setIfInBounds {v : Nat} (ha : a < d.size) (l : Nat) :
    (d.slots.setIfInBounds a v)[l]?.getD 0 = if l = a then v else d.numberOf l := by
  unfold size at ha
  rw [Array.getElem?_setIfInBounds]
  by_cases h : l = a
  · subst h
    simp [ha]
  · rw [if_neg (Ne.symm h), if_neg h]
    rfl

theorem numberOf_merge (h0 : l ≠ 0) (hl : l ≤ d.used) (hs : l < d.size) :
    (d.merge a b).numberOf l = shifted (min a b) (max a b) (d.numberOf l) := by
  unfold merge numberOf
  simp only
  rw [getElem?_closeGap, if_pos ⟨h0, hl⟩, Array.getElem?_eq_getElem hs]
  rfl

theorem numberOf_merge_of_not (h : ¬ (l ≠ 0 ∧ l ≤ d.used)) :
    (d.merge a b).numberOf l = d.numberOf l := by
  unfold merge numberOf
  simp only
  rw [getElem?_closeGap, if_neg h]

end DenseNumbering

/-! ## The simulation -/

/-- **The forest and the dense numbering agree** on the labels `1, …, m`, the ones mentioned. -/
structure Agrees (m : Nat) (f : Forest) (d : DenseNumbering) : Prop where
  size_eq : d.size = f.size
  lt_size : m < f.size
  used_eq : d.used = m
  /-- Mentioned labels have the number that the forest would give them. -/
  numberOf_eq : ∀ l ≤ m, d.numberOf l = f.numberOf l
  /-- The others have none, -/
  numberOf_eq_zero : ∀ l, m < l → d.numberOf l = 0
  /-- and are sets of their own. -/
  root_eq : ∀ l, m < l → f.root l = l
  root_ne_zero : ∀ l ≠ 0, f.root l ≠ 0
  count_eq : d.count = Nat.count f.IsHead (m + 1)

theorem Agrees.init (n : Nat) : Agrees 0 (.singletons n) (.fresh n) where
  size_eq := by simp [DenseNumbering.fresh, DenseNumbering.size, Forest.size_singletons]
  lt_size := by rw [Forest.size_singletons]; omega
  used_eq := rfl
  numberOf_eq l hl := by
    obtain rfl := Nat.le_zero.mp hl
    rw [Forest.numberOf_of_root_eq_zero (Forest.root_singletons n 0)]
    simp [DenseNumbering.fresh, DenseNumbering.numberOf]
  numberOf_eq_zero l _ := by
    unfold DenseNumbering.fresh DenseNumbering.numberOf
    rw [Array.getElem?_replicate]
    split <;> rfl
  root_eq l _ := Forest.root_singletons n l
  root_ne_zero l h0 := by rwa [Forest.root_singletons]
  count_eq := by
    rw [Nat.count_succ_eq_count fun hc => hc.1 rfl, Nat.count_zero]
    rfl

namespace Agrees

section

variable (h : Agrees m f d)
include h

theorem numberOf_le (hl : l ≤ m) : d.numberOf l ≤ d.count := by
  rw [h.numberOf_eq l hl, h.count_eq]
  exact Forest.numberOf_le_count (Nat.lt_succ_of_le hl)

theorem numberOf_ne_zero (h0 : l ≠ 0) (hl : l ≤ m) : d.numberOf l ≠ 0 := by
  rw [h.numberOf_eq l hl]
  exact (Forest.numberOf_pos (h.root_ne_zero l h0)).ne'

theorem numberOf_next : f.numberOf (m + 1) = d.count + 1 := by
  rw [h.count_eq]
  exact Forest.numberOf_of_isHead ⟨by omega, h.root_eq (m + 1) (by omega)⟩

theorem root_join_ne_zero (hl : l < f.size) (ho : o < f.size) (hl0 : l ≠ 0) (ho0 : o ≠ 0)
    (k : Nat) (hk : k ≠ 0) : (f.join l o).root k ≠ 0 := by
  have h1 := h.root_ne_zero l hl0
  have h2 := h.root_ne_zero o ho0
  have h3 := h.root_ne_zero k hk
  rw [Forest.root_join hl ho]
  split <;> omega

end

theorem start (h : Agrees m f d) (hs : m + 1 < f.size) : Agrees (m + 1) f (d.start (m + 1)) := by
  have hnum : ∀ l, (d.start (m + 1)).numberOf l = if l = m + 1 then d.count + 1 else d.numberOf l :=
    DenseNumbering.getD_setIfInBounds (h.size_eq ▸ hs)
  refine ⟨?_, hs, ?_, fun l hl => ?_, fun l hl => ?_, fun l hl => h.root_eq l (by omega),
    h.root_ne_zero, ?_⟩
  · exact (d.size_take (.opens (m + 1))).trans h.size_eq
  · simp [DenseNumbering.start, h.used_eq]
  · rw [hnum]
    split
    next hlm => rw [hlm, h.numberOf_next]
    next hlm => exact h.numberOf_eq l (by omega)
  · rw [hnum, if_neg (by omega)]
    exact h.numberOf_eq_zero l (by omega)
  · rw [Nat.count_succ_eq_succ_count ⟨by omega, h.root_eq (m + 1) (by omega)⟩, ← h.count_eq]
    rfl

theorem enter (h : Agrees m f d) (hs : m + 1 < f.size) (ho0 : o ≠ 0) (ho : o ≤ m) :
    Agrees (m + 1) (f.join (m + 1) o) (d.join (m + 1) o) := by
  have hos : o < f.size := by omega
  have hjoin : d.join (m + 1) o =
      { d with slots := d.slots.setIfInBounds (m + 1) (d.numberOf o), used := max d.used (m + 1) } := by
    unfold DenseNumbering.join
    simp only
    rw [if_pos (h.numberOf_eq_zero (m + 1) (by omega))]
  have hnum : ∀ l, (d.join (m + 1) o).numberOf l =
      if l = m + 1 then d.numberOf o else d.numberOf l := by
    rw [hjoin]
    exact DenseNumbering.getD_setIfInBounds (h.size_eq ▸ hs)
  have hrm := h.root_eq (m + 1) (by omega)
  have hro := f.root_le o
  have hle := h.numberOf_le ho
  have hfold := Forest.numberOf_join hs hos (h.root_ne_zero _ (by omega)) (h.root_ne_zero o ho0)
    (by omega)
  rw [h.numberOf_next, ← h.numberOf_eq o ho, Nat.min_eq_right (by omega),
    Nat.max_eq_left (by omega)] at hfold
  refine ⟨?_, ?_, ?_, fun l hl => ?_, fun l hl => ?_, fun l hl => ?_, ?_, ?_⟩
  · rw [Forest.size_join, ← h.size_eq]
    exact d.size_take (.joins (m + 1) o)
  · rwa [Forest.size_join]
  · rw [hjoin]
    simp [h.used_eq]
  · rw [hnum, hfold]
    unfold DenseNumbering.shifted
    split
    next hlm => rw [hlm, if_pos h.numberOf_next]
    next hlm =>
      -- no mentioned label has a number behind the one that goes
      have := h.numberOf_le (l := l) (by omega)
      rw [← h.numberOf_eq l (by omega), if_neg (by omega), if_neg (by omega)]
  · rw [hnum, if_neg (by omega)]
    exact h.numberOf_eq_zero l (by omega)
  · exact Forest.root_join_of_lt hs hos (by omega) (by omega) (h.root_eq l (by omega))
  · exact h.root_join_ne_zero hs hos (by omega) ho0
  · have := Forest.count_isHead_join (n := m + 1 + 1) hs hos (h.root_ne_zero _ (by omega))
      (h.root_ne_zero o ho0) (by omega) (by omega) (by omega)
    rw [Nat.count_succ_eq_succ_count (p := f.IsHead) ⟨by omega, hrm⟩, ← h.count_eq] at this
    rw [hjoin]
    simp only
    omega

section

variable (h : Agrees m f d) (hl0 : l ≠ 0) (hl : l ≤ m) (ho0 : o ≠ 0) (ho : o ≤ m)
include h hl0 hl ho0 ho

theorem numberOf_eq_iff : d.numberOf l = d.numberOf o ↔ f.root l = f.root o := by
  rw [h.numberOf_eq l hl, h.numberOf_eq o ho]
  exact Forest.numberOf_eq_iff (h.root_ne_zero l hl0) (h.root_ne_zero o ho0)

theorem join_of_eq (heq : d.numberOf l = d.numberOf o) : Agrees m (f.join l o) d := by
  have hs := h.lt_size
  have hls : l < f.size := by omega
  have hos : o < f.size := by omega
  have hr := Forest.root_join_of_eq hls hos ((h.numberOf_eq_iff hl0 hl ho0 ho).mp heq)
  refine ⟨by rw [Forest.size_join, h.size_eq], by rwa [Forest.size_join], h.used_eq, fun k hk => ?_,
    h.numberOf_eq_zero, fun k hk => ?_, h.root_join_ne_zero hls hos hl0 ho0, ?_⟩
  · rw [Forest.numberOf_congr hr, h.numberOf_eq k hk]
  · rw [hr, h.root_eq k hk]
  · rw [Forest.count_isHead_congr hr, h.count_eq]

theorem join_of_ne (hne : d.numberOf l ≠ d.numberOf o) :
    Agrees m (f.join l o) (d.merge (d.numberOf l) (d.numberOf o)) := by
  have hs := h.lt_size
  have hls : l < f.size := by omega
  have hos : o < f.size := by omega
  have hl1 := h.root_ne_zero l hl0
  have ho1 := h.root_ne_zero o ho0
  have hroot := mt (h.numberOf_eq_iff hl0 hl ho0 ho).mpr hne
  refine ⟨?_, by rwa [Forest.size_join], h.used_eq, fun k hk => ?_, fun k hk => ?_, fun k hk => ?_,
    h.root_join_ne_zero hls hos hl0 ho0, ?_⟩
  · rw [Forest.size_join, ← h.size_eq]
    exact DenseNumbering.size_closeGap ..
  · rcases Nat.eq_zero_or_pos k with rfl | hk0
    · have hz : ∀ g : Forest, g.numberOf 0 = 0 := fun g =>
        Forest.numberOf_of_root_eq_zero (Nat.le_zero.mp (g.root_le 0))
      rw [DenseNumbering.numberOf_merge_of_not (by omega), h.numberOf_eq 0 hk, hz, hz]
    · have hused : k ≤ d.used := h.used_eq.symm ▸ hk
      have hsize : k < d.size := by rw [h.size_eq]; omega
      rw [DenseNumbering.numberOf_merge hk0.ne' hused hsize,
        Forest.numberOf_join hls hos hl1 ho1 hroot, h.numberOf_eq l hl, h.numberOf_eq o ho,
        h.numberOf_eq k hk]
  · have hused := h.used_eq
    rw [DenseNumbering.numberOf_merge_of_not (by omega)]
    exact h.numberOf_eq_zero k hk
  · exact Forest.root_join_of_lt hls hos (by omega) (by omega) (h.root_eq k hk)
  · have h1 := f.root_le l
    have h2 := f.root_le o
    have := Forest.count_isHead_join (n := m + 1) hls hos hl1 ho1 hroot (by omega) (by omega)
    rw [← h.count_eq] at this
    unfold DenseNumbering.merge
    simp only
    omega

theorem join : Agrees m (f.join l o) (d.join l o) := by
  unfold DenseNumbering.join
  simp only
  rw [if_neg (h.numberOf_ne_zero hl0 hl)]
  split
  next heq => exact h.join_of_eq hl0 hl ho0 ho heq
  next hne => exact h.join_of_ne hl0 hl ho0 ho hne

end

/-- **A report in turn keeps the agreement.** -/
theorem take (h : Agrees m f d) (he : e.mention m = some m') (hs : m' < f.size) :
    Agrees m' (f.take e) (d.take e) := by
  rcases Report.mention_cases he with ⟨rfl, rfl⟩ | ⟨o, rfl, ho0, ho, rfl⟩ |
    ⟨l, o, rfl, hl0, hl, ho0, ho, rfl⟩
  · exact h.start hs
  · exact h.enter hs ho0 ho
  · exact h.join hl0 hl ho0 ho

theorem foldl (h : Agrees m f d) (he : es.foldlM Report.mention m = some n) (hs : n < f.size) :
    Agrees n (es.foldl Forest.take f) (es.foldl DenseNumbering.take d) := by
  induction es generalizing m f d with
  | nil =>
    obtain rfl : m = n := by simpa using he
    exact h
  | cons e es ih =>
    rw [List.foldlM_cons] at he
    obtain ⟨m', he1, he2⟩ := Option.bind_eq_some_iff.mp he
    have hle := (le_of_foldlM_mention he2).1
    have htake := h.take he1 (hle.trans_lt hs)
    have hs' : n < (f.take e).size := by rw [Forest.size_take]; exact hs
    rw [List.foldl_cons, List.foldl_cons]
    exact ih htake he2 hs'

end Agrees

/-! ## Both tables -/

theorem DenseNumbering.foldlM_take? (d : DenseNumbering)
    (h : ∀ e ∈ es, ∀ l ∈ e.labels, l < d.size) :
    es.foldlM DenseNumbering.take? d = some (es.foldl DenseNumbering.take d) := by
  induction es generalizing d with
  | nil => rfl
  | cons e es ih =>
    have he : d.take? e = some (d.take e) := if_pos (h e (List.mem_cons_self ..))
    rw [List.foldlM_cons, he, List.foldl_cons]
    refine ih _ fun e' he' => ?_
    rw [size_take]
    exact h e' (List.mem_cons_of_mem e he')

theorem Forest.foldlM_take? (f : Forest) (h : ∀ e ∈ es, ∀ l ∈ e.labels, l < f.size) :
    es.foldlM Forest.take? f = some (es.foldl Forest.take f) := by
  induction es generalizing f with
  | nil => rfl
  | cons e es ih =>
    have he : f.take? e = some (f.take e) := by
      have hl := h e (List.mem_cons_self ..)
      cases e with
      | opens l => rfl
      | joins l o => exact if_pos ⟨hl l (by simp [Report.labels]), hl o (by simp [Report.labels])⟩
    rw [List.foldlM_cons, he, List.foldl_cons]
    refine ih _ fun e' he' => ?_
    rw [size_take]
    exact h e' (List.mem_cons_of_mem e he')

/-- After a history that mentions `1, …, m` the dense numbering over `1, …, n` holds the numbers
that the forest over `1, …, m` resolves. -/
theorem resolved_of_mentioned (h : mentioned? es = some m) (hm : m ≤ n) :
    (es.foldl DenseNumbering.take (.fresh n)).count =
        (es.foldl Forest.take (.singletons m)).resolved.2 ∧
      ∀ l ≤ m, (es.foldl DenseNumbering.take (.fresh n)).slots[l]? =
        (es.foldl Forest.take (.singletons m)).resolved.1[l]? := by
  have hw := (le_of_foldlM_mention h).2
  have hmn : m < (Forest.singletons n).size := by rw [Forest.size_singletons]; omega
  have hag := (Agrees.init n).foldl h hmn
  have hroot : ∀ k, (es.foldl Forest.take (.singletons m)).root k =
      (es.foldl Forest.take (.singletons n)).root k := by
    refine Forest.root_foldl_congr (Forest.size_singletons m) hmn hw fun k => ?_
    rw [Forest.root_singletons, Forest.root_singletons]
  have hsize : (es.foldl Forest.take (.singletons m)).size = m + 1 := by
    rw [Forest.size_foldl_take, Forest.size_singletons]
  rw [Forest.resolved_eq, hsize]
  refine ⟨?_, fun l hl => ?_⟩
  · rw [hag.count_eq]
    exact (Forest.count_isHead_congr hroot (m + 1)).symm
  · have hlt : l < (es.foldl DenseNumbering.take (.fresh n)).slots.size := by
      have h1 := hag.size_eq
      have h2 := hag.lt_size
      unfold DenseNumbering.size at h1
      omega
    have hnum := hag.numberOf_eq l hl
    unfold DenseNumbering.numberOf at hnum
    rw [Array.getElem?_eq_getElem hlt] at hnum ⊢
    rw [← Forest.numberOf_congr hroot, Option.getD_some] at hnum
    rw [hnum, Array.getElem?_map, Array.getElem?_range, if_pos (by omega), Option.map_some]

/-- **Once all labels are mentioned both resolve to one table and count.** -/
theorem resolved_fresh_eq (h : mentioned? es = some n) :
    (es.foldl DenseNumbering.take (.fresh n)).resolved =
      (es.foldl Forest.take (.singletons n)).resolved := by
  obtain ⟨hcount, hslots⟩ := resolved_of_mentioned h (le_refl n)
  have hn : n < (Forest.singletons n).size := by rw [Forest.size_singletons]; omega
  have hsize : (es.foldl DenseNumbering.take (.fresh n)).size = n + 1 := by
    rw [((Agrees.init n).foldl h hn).size_eq, Forest.size_foldl_take, Forest.size_singletons]
  refine Prod.ext (Array.ext_getElem? fun l => ?_) hcount
  rcases Nat.lt_or_ge n l with hl | hl
  · rw [Forest.resolved_eq, Forest.size_foldl_take, Forest.size_singletons, Array.getElem?_map,
      Array.getElem?_range, if_neg (by omega), Option.map_none]
    exact Array.getElem?_eq_none (hsize.trans_le hl)
  · exact hslots l hl

/-- **The dense numbering is the forest's at every moment.** Whatever part of a history is taken in,
it names no label outside, and the numbers of the labels mentioned by then, and of the sets, are
those that a forest over just these labels resolves; if all labels are mentioned in the end, both
resolve to the same table and count. -/
theorem dense_eq_resolved {es : List Report} {k n : Nat} (h : mentioned? es = some k) (hk : k ≤ n) :
    (∀ pre, pre <+: es → ∃ m d f, m ≤ k ∧ mentioned? pre = some m ∧
      pre.foldlM DenseNumbering.take? (.fresh n) = some d ∧
      pre.foldlM Forest.take? (.singletons m) = some f ∧
      d.count = f.resolved.2 ∧ ∀ l ≤ m, d.slots[l]? = f.resolved.1[l]?) ∧
    (k = n → (es.foldl DenseNumbering.take (.fresh n)).resolved =
      (es.foldl Forest.take (.singletons n)).resolved) := by
  constructor
  · intro pre hpre
    obtain ⟨m, hmk, hm⟩ := mentioned?_of_prefix h hpre
    have hw := (le_of_foldlM_mention hm).2
    obtain ⟨hcount, hslots⟩ := resolved_of_mentioned hm (hmk.trans hk)
    refine ⟨m, _, _, hmk, hm, DenseNumbering.foldlM_take? _ fun e he l hl => ?_,
      Forest.foldlM_take? _ fun e he l hl => ?_, hcount, hslots⟩
    · have := hw e he l hl
      simp only [DenseNumbering.fresh, DenseNumbering.size, Array.size_replicate]
      omega
    · have := hw e he l hl
      rw [Forest.size_singletons]
      omega
  · rintro rfl
    exact resolved_fresh_eq h

/-- A late join folds the third of four sets into the second, and the fourth moves down. -/
theorem dense_eq_resolved_late_join :
    mentioned? [.opens 1, .opens 2, .opens 3, .opens 4, .joins 5 3, .joins 5 2] = some 5 ∧ 5 ≤ 5 ∧
      ([.opens 1, .opens 2, .opens 3, .opens 4, .joins 5 3, .joins 5 2].foldl Forest.take
        (.singletons 5)).resolved = (#[0, 1, 2, 2, 3, 2], 3) :=
  ⟨by decide, le_refl 5, ((dense_eq_resolved (by decide) (le_refl 5)).2 rfl).symm⟩

end Bitplane.Region
