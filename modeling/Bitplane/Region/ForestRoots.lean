import Bitplane.Region.Forest

/-! # Roots of a forest

* `up_root`, `root_le`, `root_eq_self_iff`: the root is a label without a parent below it, and not
  above the label it is reached from.
* `root_hang`: a label hung under one of its own set, a root left alone, changes no root.
* `find_snd`, `root_find`: `find` answers the root and changes none. -/

namespace Bitplane.Region.Forest

variable {f : Forest}

theorem parent_eq_up {l : Nat} (h : l < f.size) : f.parent[l]? = some (f.up l) := by
  unfold up
  rw [Array.getElem?_eq_getElem h]
  rfl

theorem root_of_up_eq {l : Nat} (h : f.up l = l) : f.root l = l := by rw [root, if_pos h]

theorem root_up (f : Forest) (l : Nat) : f.root (f.up l) = f.root l := by
  by_cases h : f.up l = l
  · rw [h]
  · conv => rhs; rw [root, if_neg h]

theorem up_root (f : Forest) (l : Nat) : f.up (f.root l) = f.root l := by
  induction l using Nat.strongRecOn with
  | ind l ih =>
    by_cases h : f.up l = l
    · rw [root_of_up_eq h, h]
    · have := f.up_le l
      rw [← root_up]
      exact ih (f.up l) (by omega)

theorem root_le (f : Forest) (l : Nat) : f.root l ≤ l := by
  induction l using Nat.strongRecOn with
  | ind l ih =>
    by_cases h : f.up l = l
    · exact Nat.le_of_eq (root_of_up_eq h)
    · have := f.up_le l
      rw [← root_up]
      exact Nat.le_trans (ih (f.up l) (by omega)) this

theorem root_root (f : Forest) (l : Nat) : f.root (f.root l) = f.root l :=
  root_of_up_eq (f.up_root l)

theorem root_eq_self_iff {l : Nat} : f.root l = l ↔ f.up l = l :=
  ⟨fun h => by have := f.up_root l; rwa [h] at this, root_of_up_eq⟩

theorem up_hang (f : Forest) {l p : Nat} (h : p ≤ l) (k : Nat) :
    (f.hang l p h).up k = if k = l ∧ l < f.size then p else f.up k := by
  unfold up hang size
  simp only
  rw [Array.getElem?_setIfInBounds]
  by_cases hk : l = k
  · subst hk
    by_cases hl : l < f.parent.size
    · simp [hl]
    · simp [hl]
  · rw [if_neg hk, if_neg (fun hc => hk hc.1.symm)]

theorem hang_self {l : Nat} (h : f.up l = l) : f.hang l l (Nat.le_refl l) = f := by
  obtain ⟨parent, hle⟩ := f
  unfold hang
  simp only [Forest.mk.injEq]
  refine Array.ext_getElem? fun k => ?_
  rw [Array.getElem?_setIfInBounds]
  split
  next hk =>
    subst hk
    split
    next hl =>
      have := parent_eq_up (f := ⟨parent, hle⟩) hl
      rw [h] at this
      exact this.symm
    next hl => rw [Array.getElem?_eq_none (by omega)]
  next => rfl

/-- **Hanging a label under one of its own set changes no root**, if a root stays where it is. -/
theorem root_hang {l p : Nat} (h : p ≤ l) (hr : f.root p = f.root l) (hp : p = l → f.up l = l)
    (k : Nat) : (f.hang l p h).root k = f.root k := by
  induction k using Nat.strongRecOn with
  | ind k ih =>
    have hu := f.up_hang h k
    by_cases hk : k = l ∧ l < f.size
    · rw [if_pos hk] at hu
      obtain ⟨rfl, -⟩ := hk
      by_cases hpl : p = k
      · rw [root_of_up_eq (hu.trans hpl), root_of_up_eq (hp hpl)]
      · rw [← root_up, hu, ih p (by omega), hr]
    · rw [if_neg hk] at hu
      by_cases hup : f.up k = k
      · rw [root_of_up_eq (hu.trans hup), root_of_up_eq hup]
      · have := f.up_le k
        rw [← root_up, hu, ih (f.up k) (by omega), root_up]

theorem root_hang_up_up (f : Forest) (l : Nat) (k : Nat) :
    (f.hang l (f.up (f.up l)) (f.up_up_le l)).root k = f.root k := by
  refine root_hang _ (by rw [root_up, root_up]) (fun h => ?_) k
  have h1 := f.up_le l
  have h2 := f.up_le (f.up l)
  omega

/-- **`find` answers the root.** -/
theorem find_snd (f : Forest) (l : Nat) : (f.find l).2 = f.root l := by
  fun_induction find f l with
  | case1 f l h => rw [root_of_up_eq h]
  | case2 f l h ih => rw [ih, root_hang_up_up, root_up, root_up]

theorem root_find (f : Forest) (l k : Nat) : (f.find l).1.root k = f.root k := by
  fun_induction find f l with
  | case1 f l h => rfl
  | case2 f l h ih => rw [ih, root_hang_up_up]

theorem size_find (f : Forest) (l : Nat) : (f.find l).1.size = f.size := by
  fun_induction find f l with
  | case1 f l h => rfl
  | case2 f l h ih => rw [ih, size_hang]

end Bitplane.Region.Forest
