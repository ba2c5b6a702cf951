import Bitplane.Proofs.Region.CheckedTables
import Bitplane.Proofs.Region.TiedClasses
import Bitplane.Region.LabelingLoops

/-! # Walks along bare parents

Of bare parents nothing is known, and a walk along them may go round for ever. Joins that start from
labels that are their own parents keep every parent at or below its label, and so each walk ends.

* `find_eq`, `root_eq`, `join_eq`: where the parents are those of a forest, the loops are its walks
  and its join.
* `join_ends_iff`, `foldlM_join_ends_iff`: joins end well exactly if their labels are in the forest.
* `isLeast_root`: a root is the smallest label of its set.
* `find_after_joins`: after any joins a walk ends at the smallest label of its set, and leaves all
  roots as they were. -/

namespace Bitplane.Region

open Loop

/-- The parents of a forest, without what is known of them. -/
def Forest.bare (f : Forest) : Parents := ⟨f.parent⟩

@[simp] theorem Forest.parent_bare (f : Forest) : f.bare.parent = f.parent := rfl

namespace Parents

variable {f : Forest} {js : List (Nat × Nat)} {a b k l n o r steps : Nat} {t : Parents}

/-! ## The walks of a forest -/

theorem find_of_root (h : t.parent[l]? = some l) : t.find l = return (t, l) := by
  rw [find, h, need_some_bind, if_pos rfl]

theorem find_of_parent {p g : Nat} (h : t.parent[l]? = some p) (hne : p ≠ l)
    (hg : t.parent[p]? = some g) : t.find l = (t.hang l g).find g := by
  rw [find, h, need_some_bind, if_neg hne, hg, need_some_bind]

/-- The parents that a step on a forest leaves, with its answer. -/
def bareWith (q : Forest × Nat) : Parents × Nat := (q.1.bare, q.2)

/-- **The walk that halves its path ends**, whatever the forest. -/
theorem find_eq (f : Forest) (l : Nat) :
    f.bare.find l = once ((Checked.find f l).map bareWith) := by
  fun_induction Checked.find f l with
  | case1 f l hp =>
    rw [find, Forest.parent_bare, hp, need_none_bind]
    rfl
  | case2 f l hp => exact find_of_root hp
  | case3 f l p hp hne hg =>
    rw [find, Forest.parent_bare, hp, need_some_bind, if_neg hne, hg, need_none_bind]
    rfl
  | case4 f l p hp hne g hg ih => exact (find_of_parent (t := f.bare) hp hne hg).trans ih

theorem root_eq (f : Forest) (steps l : Nat) :
    f.bare.root steps l = once (Checked.root f steps l) := by
  fun_induction Checked.root f steps l with
  | case1 steps l hp => rw [root, Forest.parent_bare, hp, need_none_bind]
  | case2 steps l hp =>
    rw [root, Forest.parent_bare, hp, need_some_bind, if_pos rfl]
    rfl
  | case3 steps l p hp hne hs ih =>
    have hs' : steps + 1 < f.parent.size := hs
    rw [root, Forest.parent_bare, hp, need_some_bind, if_neg hne, Checked.ensure_of hs']
    exact ih
  | case4 steps l p hp hne hs =>
    have hs' : ¬ steps + 1 < f.parent.size := hs
    rw [root, Forest.parent_bare, hp, need_some_bind, if_neg hne, ensure, if_neg hs']
    rfl

theorem bare_link (f : Forest) (a b : Nat) :
    (f.link a b).bare = f.bare.hang (max a b) (min a b) := by
  unfold Forest.link
  split
  next h =>
    rw [Nat.max_eq_right h, Nat.min_eq_left h]
    rfl
  next h =>
    rw [Nat.max_eq_left (by omega), Nat.min_eq_right (by omega)]
    rfl

theorem link_eq (f : Forest) (a b : Nat) : f.bare.link a b =
    once (Except.map Forest.bare (if a = b then return f else do
      ensure (max a b < f.size)
      return f.link a b)) := by
  unfold link
  by_cases hab : a = b
  · rw [if_pos hab, if_pos hab]
    rfl
  · rw [if_neg hab, if_neg hab]
    by_cases hs : max a b < f.size
    · have hs' : max a b < f.bare.parent.size := hs
      rw [Checked.ensure_of hs, Checked.ensure_of hs', ok_bind]
      exact congrArg (fun p => once (.ok p)) (bare_link f a b).symm
    · have hs' : ¬ max a b < f.bare.parent.size := hs
      rw [ensure, if_neg hs', ensure, if_neg hs]
      rfl

/-- **A join leaves the parents of a forest.** -/
theorem join_eq (f : Forest) (l o : Nat) :
    f.bare.join l o = once ((Checked.join f l o).map Forest.bare) := by
  unfold join Checked.join
  rw [find_eq]
  rcases Checked.find f l with e | ⟨f₁, a⟩
  · rfl
  · show (f₁.bare.find o >>= fun q => q.1.link a q.2) = once (Except.map Forest.bare
      (Checked.find f₁ o >>= fun q => if a = q.2 then return q.1 else do
        ensure (max a q.2 < q.1.size)
        return q.1.link a q.2))
    rw [find_eq]
    rcases Checked.find f₁ o with e | ⟨f₂, b⟩
    · rfl
    · exact link_eq f₂ a b

/-! ## Joins that end well -/

theorem find_error (h : f.size ≤ l) : Checked.find f l = .error .outOfRange := by
  have hp : f.parent[l]? = none := Array.getElem?_eq_none h
  unfold Checked.find
  split
  next => rfl
  next hsome =>
    rw [hp] at hsome
    cases hsome

theorem root_error (h : f.size ≤ l) : Checked.root f steps l = .error .outOfRange := by
  have hp : f.parent[l]? = none := Array.getElem?_eq_none h
  unfold Checked.root
  split
  next => rfl
  next hsome =>
    rw [hp] at hsome
    cases hsome

/-- **A join ends well exactly if its labels are in the forest.** -/
theorem join_ends_iff : (∃ t, f.bare.join l o = return t) ↔ l < f.size ∧ o < f.size := by
  rw [join_eq]
  constructor
  · rintro ⟨t, ht⟩
    have hok := once_injective ht
    unfold Checked.join at hok
    by_cases hl : l < f.size
    · refine ⟨hl, ?_⟩
      by_contra ho
      have hsize := f.size_find l
      rw [Checked.find_eq hl, ok_bind] at hok
      simp only at hok
      rw [find_error (by omega)] at hok
      cases hok
    · rw [find_error (not_lt.mp hl)] at hok
      cases hok
  · rintro ⟨hl, ho⟩
    rw [Checked.join_eq hl ho]
    exact ⟨_, rfl⟩

/-- Joins as reports. -/
def asReports (js : List (Nat × Nat)) : List Report := js.map fun j => .joins j.1 j.2

theorem foldlM_join (h : ∀ j ∈ js, j.1 < f.size ∧ j.2 < f.size) :
    js.foldlM (fun t j => t.join j.1 j.2) f.bare =
      return ((asReports js).foldl Forest.take f).bare := by
  induction js generalizing f with
  | nil => rfl
  | cons j js ih =>
    obtain ⟨hl, ho⟩ := h j (List.mem_cons_self ..)
    rw [List.foldlM_cons, join_eq, Checked.join_eq hl ho]
    refine ih fun i hi => ?_
    rw [Forest.size_join]
    exact h i (List.mem_cons_of_mem j hi)

theorem foldlM_join_ends_iff :
    (∃ t, js.foldlM (fun t j => t.join j.1 j.2) f.bare = return t) ↔
      ∀ j ∈ js, j.1 < f.size ∧ j.2 < f.size := by
  refine ⟨fun h => ?_, fun h => ⟨_, foldlM_join h⟩⟩
  induction js generalizing f with
  | nil => exact fun j hj => nomatch hj
  | cons j js ih =>
    obtain ⟨t, ht⟩ := h
    rw [List.foldlM_cons, join_eq] at ht
    cases hok : Checked.join f j.1 j.2 with
    | error e =>
      rw [hok] at ht
      cases once_injective ht
    | ok f' =>
      have hj : j.1 < f.size ∧ j.2 < f.size := join_ends_iff.mp ⟨f'.bare, by
        rw [join_eq, hok]
        rfl⟩
      obtain rfl : f.join j.1 j.2 = f' := by
        rw [Checked.join_eq hj.1 hj.2] at hok
        exact Except.ok.inj hok
      rw [hok] at ht
      have hjs := ih ⟨t, ht⟩
      rw [Forest.size_join] at hjs
      exact List.forall_mem_cons.mpr ⟨hj, hjs⟩

/-! ## Labels of one set -/

/-- The joins put the labels into one set. -/
def SameSet (js : List (Nat × Nat)) : Nat → Nat → Prop := Relation.EqvGen fun l o => (l, o) ∈ js

theorem tied_asReports : Forest.Tied (asReports js) = SameSet js := by
  unfold Forest.Tied SameSet asReports
  congr
  ext l o
  simp

theorem within_asReports (h : ∀ j ∈ js, j.1 ≤ n ∧ j.2 ≤ n) : Forest.Within n (asReports js) := by
  intro e he l hl
  obtain ⟨j, hj, rfl⟩ := List.mem_map.mp he
  obtain ⟨h1, h2⟩ := h j hj
  rcases List.mem_pair.mp hl with rfl | rfl
  · exact h1
  · exact h2

/-- **A root is the smallest label of its set.** -/
theorem isLeast_root (h : ∀ j ∈ js, j.1 ≤ n ∧ j.2 ≤ n) (l : Nat) :
    IsLeast {k | SameSet js l k} (((asReports js).foldl Forest.take (.singletons n)).root l) := by
  have hw := within_asReports h
  rw [← tied_asReports]
  refine ⟨Forest.tied_root hw l, fun k hk => ?_⟩
  rw [(Forest.root_eq_iff_tied hw).mpr hk]
  exact Forest.root_le _ k

/-! ## A walk after joins -/

/-- **What a walk from `l` answers, `r`, and leaves, `t'`**: the root, which is the smallest label
of the set, and parents that are none above its label and have all roots they had. -/
structure Found (n : Nat) (js : List (Nat × Nat)) (t : Parents) (l : Nat) (t' : Parents) (r : Nat) :
    Prop where
  root_eq : t.root 0 l = return r
  isLeast : IsLeast {k | SameSet js l k} r
  root_stays : ∀ k, t'.root 0 k = t.root 0 k
  size_eq : t'.parent.size = n + 1
  parent_le : ∀ m ≤ n, ∃ p ≤ m, t'.parent[m]? = some p

theorem found_of_isLeast (hf : f.size = n + 1)
    (hleast : ∀ l, IsLeast {k | SameSet js l k} (f.root l)) (hl : l ≤ n) :
    (f.bare.find l = return ((f.find l).1.bare, (f.find l).2)) ∧
      Found n js f.bare l (f.find l).1.bare (f.find l).2 := by
  have hsize := f.size_find l
  refine ⟨?_, ⟨?_, ?_, fun k => ?_, ?_, fun m hm => ?_⟩⟩
  · rw [find_eq, Checked.find_eq (by omega)]
    rfl
  · rw [root_eq, Checked.root_eq (by omega), Forest.find_snd]
    rfl
  · rw [Forest.find_snd]
    exact hleast l
  · rw [root_eq, root_eq]
    by_cases hk : k < f.size
    · rw [Checked.root_eq (by omega), Checked.root_eq (by omega), Forest.root_find]
    · rw [root_error (by omega), root_error (by omega)]
  · exact hsize.trans hf
  · exact ⟨_, Forest.up_le _ m, Forest.parent_eq_up (by omega)⟩

/-- **After any joins a walk from a label ends at the smallest label of its set**, as the walk that
leaves the parents alone does, and changes no root. Joins of the labels `0, …, n` themselves end
well, and no others do. -/
theorem find_after_joins (n : Nat) (js : List (Nat × Nat)) :
    ((∃ t, joins n js = return t) ↔ ∀ j ∈ js, j.1 ≤ n ∧ j.2 ≤ n) ∧
      ∀ t, (joins n js = return t) → ∀ l ≤ n, ∃ t' r, (t.find l = return (t', r)) ∧
        Found n js t l t' r := by
  have hsize := Forest.size_singletons n
  have hends : (∃ t, joins n js = return t) ↔ ∀ j ∈ js, j.1 ≤ n ∧ j.2 ≤ n := by
    have h : (∃ t, joins n js = return t) ↔
        ∀ j ∈ js, j.1 < (Forest.singletons n).size ∧ j.2 < (Forest.singletons n).size :=
      foldlM_join_ends_iff (f := .singletons n)
    simp only [hsize, Nat.lt_succ_iff] at h
    exact h
  refine ⟨hends, fun t ht l hl => ?_⟩
  have hjs := hends.mp ⟨t, ht⟩
  have hrun : joins n js = return ((asReports js).foldl Forest.take (.singletons n)).bare :=
    foldlM_join (f := .singletons n) fun j hj => by
      have := hjs j hj
      omega
  obtain rfl := Except.ok.inj (once_injective (ht.symm.trans hrun))
  exact ⟨_, _, found_of_isLeast (by rw [Forest.size_foldl_take, hsize]) (isLeast_root hjs) hl⟩

/-- A path of three steps: the walk takes it in two, and leaves it halved. -/
theorem find_after_joins_long_path :
    let js := [(6, 5), (5, 3), (4, 2), (3, 1)]
    let t : Parents := ⟨#[0, 1, 2, 1, 2, 3, 5]⟩
    let t' : Parents := ⟨#[0, 1, 2, 1, 2, 3, 3]⟩
    (joins 6 js = return t) ∧ 6 ≤ 6 ∧ (t.find 6 = return (t', 1)) ∧ Found 6 js t 6 t' 1 := by
  intro js t t'
  have hforest : ((asReports js).foldl Forest.take (.singletons 6)).bare = t := by decide +kernel
  have hjoins : joins 6 js = return t := by
    rw [← hforest]
    exact foldlM_join (f := .singletons 6) (by decide)
  have hfind : t.find 6 = return (t', 1) := by
    rw [find_of_parent (p := 5) (g := 3) rfl (by decide) rfl,
      find_of_parent (p := 1) (g := 1) rfl (by decide) rfl, find_of_root rfl]
    rfl
  obtain ⟨u, r, hu, hfound⟩ := (find_after_joins 6 js).2 t hjoins 6 (le_refl 6)
  obtain ⟨rfl, rfl⟩ := Prod.mk.inj (Except.ok.inj (once_injective (hfind.symm.trans hu)))
  exact ⟨hjoins, le_refl 6, hfind, hfound⟩

end Parents

end Bitplane.Region
