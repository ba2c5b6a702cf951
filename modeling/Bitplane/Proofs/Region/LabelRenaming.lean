import Bitplane.Proofs.Region.PartitionCheck

/-! # Lists of labels that group their places alike

That two lists group alike is an equivalence, and the names of the labels do not matter to it.

* `GroupsAlike`: what the comparison of two lists decides (`same_iff_groupsAlike`).
* `groupsAlike_iff`: background needs no case of its own, any two places may be compared; this makes
  it an equivalence.
* `Renaming`: new labels for those of a list, and `Renaming.groupsAlike`: they group as the old
  ones.
* `partner`: the label of the second list for one of the first, and `same_iff_exists_renaming`: two
  lists group alike exactly if one renames the other.
* `same_decides_grouping`: the comparison decides an equivalence that no renaming changes. -/

namespace Bitplane.Partition

variable {f : Nat → Nat} {k l m : Array Nat} {a : Nat}

/-- **Two lists of labels group their places alike.** -/
structure GroupsAlike (k l : Array Nat) : Prop where
  size_eq : k.size = l.size
  /-- Background is at the same places. -/
  zero_iff : ∀ i < k.size, k[i]? = some 0 ↔ l[i]? = some 0
  /-- Two other places have one label in both lists, or in neither. -/
  eq_iff : ∀ i < k.size, ∀ j < k.size, k[i]? ≠ some 0 → k[j]? ≠ some 0 →
    (k[i]? = k[j]? ↔ l[i]? = l[j]?)

theorem same_iff_groupsAlike : same k l = true ↔ GroupsAlike k l :=
  same_iff.trans ⟨fun ⟨hs, hz, he⟩ => ⟨hs, hz, he⟩, fun ⟨hs, hz, he⟩ => ⟨hs, hz, he⟩⟩

/-! ## An equivalence -/

/-- Places of the background, and those behind the end, may be compared as all others. -/
theorem groupsAlike_iff : GroupsAlike k l ↔ k.size = l.size ∧
    (∀ i : Nat, k[i]? = some 0 ↔ l[i]? = some 0) ∧ ∀ i j : Nat, k[i]? = k[j]? ↔ l[i]? = l[j]? := by
  refine ⟨fun ⟨hs, hz, he⟩ => ?_, fun ⟨hs, hz, he⟩ => ⟨hs, fun i _ => hz i, fun i _ j _ _ _ => he i j⟩⟩
  have hnone : ∀ i : Nat, k[i]? = none ↔ l[i]? = none := fun i => by
    rw [Array.getElem?_eq_none_iff, Array.getElem?_eq_none_iff, hs]
  have hzero : ∀ i : Nat, k[i]? = some 0 ↔ l[i]? = some 0 := fun i => by
    by_cases hi : i < k.size
    · exact hz i hi
    · rw [Array.getElem?_eq_none (Nat.le_of_not_lt hi), Array.getElem?_eq_none (by omega)]
  refine ⟨hs, hzero, fun i j => ?_⟩
  by_cases hi : i < k.size
  · by_cases hj : j < k.size
    · by_cases hi0 : k[i]? = some 0
      · rw [hi0, (hzero i).mp hi0, eq_comm, hzero j, eq_comm]
      · by_cases hj0 : k[j]? = some 0
        · rw [hj0, (hzero j).mp hj0, hzero i]
        · exact he i hi j hj hi0 hj0
    · have hj : k[j]? = none := Array.getElem?_eq_none (Nat.le_of_not_lt hj)
      rw [hj, (hnone j).mp hj, hnone i]
  · have hi : k[i]? = none := Array.getElem?_eq_none (Nat.le_of_not_lt hi)
    rw [hi, (hnone i).mp hi, eq_comm, hnone j, eq_comm]

theorem GroupsAlike.refl (k : Array Nat) : GroupsAlike k k :=
  ⟨rfl, fun _ _ => .rfl, fun _ _ _ _ _ _ => .rfl⟩

theorem GroupsAlike.symm (h : GroupsAlike k l) : GroupsAlike l k := by
  rw [groupsAlike_iff] at h ⊢
  exact ⟨h.1.symm, fun i => (h.2.1 i).symm, fun i j => (h.2.2 i j).symm⟩

theorem GroupsAlike.trans (h : GroupsAlike k l) (h' : GroupsAlike l m) : GroupsAlike k m := by
  rw [groupsAlike_iff] at h h' ⊢
  exact ⟨h.1.trans h'.1, fun i => (h.2.1 i).trans (h'.2.1 i),
    fun i j => (h.2.2 i j).trans (h'.2.2 i j)⟩

/-! ## Renaming -/

/-- **New labels for those of a list**: background stays background, and labels that are not get
labels that are not, different ones for different labels. -/
structure Renaming (f : Nat → Nat) (k : Array Nat) : Prop where
  zero : f 0 = 0
  ne_zero : ∀ a ∈ k, a ≠ 0 → f a ≠ 0
  injective : ∀ a ∈ k, ∀ b ∈ k, a ≠ 0 → b ≠ 0 → f a = f b → a = b

theorem Renaming.groupsAlike (h : Renaming f k) : GroupsAlike k (k.map f) where
  size_eq := Array.size_map.symm
  zero_iff i hi := by
    rw [Array.getElem?_map, Array.getElem?_eq_getElem hi, Option.map_some, Option.some.injEq,
      Option.some.injEq]
    refine ⟨fun h0 => h0 ▸ h.zero, fun hf => ?_⟩
    by_contra h0
    exact h.ne_zero _ (Array.getElem_mem hi) h0 hf
  eq_iff i hi j hj hi0 hj0 := by
    rw [Array.getElem?_eq_getElem hi, ne_eq, Option.some.injEq] at hi0
    rw [Array.getElem?_eq_getElem hj, ne_eq, Option.some.injEq] at hj0
    rw [Array.getElem?_map, Array.getElem?_map, Array.getElem?_eq_getElem hi,
      Array.getElem?_eq_getElem hj, Option.map_some, Option.map_some, Option.some.injEq,
      Option.some.injEq]
    exact ⟨congrArg f, h.injective _ (Array.getElem_mem hi) _ (Array.getElem_mem hj) hi0 hj0⟩

/-- The label of the second list where a label first stands in the first. -/
def partner (k l : Array Nat) (a : Nat) : Nat := l.getD (k.toList.idxOf a) 0

theorem exists_partner (hs : k.size = l.size) (ha : a ∈ k) :
    ∃ i : Nat, k[i]? = some a ∧ l[i]? = some (partner k l a) := by
  have hlt := List.idxOf_lt_length_of_mem (Array.mem_toList_iff.mpr ha)
  have hfirst : k[k.toList.idxOf a]? = some a := by
    rw [← Array.getElem?_toList, List.getElem?_eq_getElem hlt, List.getElem_idxOf]
  have hlt : k.toList.idxOf a < l.size := hs ▸ hlt
  refine ⟨_, hfirst, ?_⟩
  unfold partner
  rw [Array.getD_eq_getD_getElem?, Array.getElem?_eq_getElem hlt]
  rfl

theorem partner_of_not_mem (hs : k.size = l.size) (ha : a ∉ k) : partner k l a = 0 := by
  have hout : k.toList.idxOf a = k.size := List.idxOf_eq_length (mt Array.mem_toList_iff.mp ha)
  unfold partner
  rw [Array.getD_eq_getD_getElem?, hout, Array.getElem?_eq_none (Nat.le_of_eq hs.symm)]
  rfl

/-- **Lists that group alike rename one another**: each label becomes its partner. -/
theorem GroupsAlike.renaming_partner (h : GroupsAlike k l) :
    Renaming (partner k l) k ∧ k.map (partner k l) = l := by
  obtain ⟨hs, hz, he⟩ := groupsAlike_iff.mp h
  refine ⟨⟨?_, fun a ha h0 hp => ?_, fun a ha b hb _ _ hab => ?_⟩, Array.ext_getElem? fun i => ?_⟩
  · by_cases hk : 0 ∈ k
    · obtain ⟨i, hi, hl⟩ := exists_partner hs hk
      rw [(hz i).mp hi] at hl
      exact (Option.some.inj hl).symm
    · exact partner_of_not_mem hs hk
  · obtain ⟨i, hi, hl⟩ := exists_partner hs ha
    rw [hp, ← hz i, hi, Option.some.injEq] at hl
    exact h0 hl
  · obtain ⟨i, hi, hli⟩ := exists_partner hs ha
    obtain ⟨j, hj, hlj⟩ := exists_partner hs hb
    have hij := (he i j).mpr (by rw [hli, hlj, hab])
    rw [hi, hj] at hij
    exact Option.some.inj hij
  · rw [Array.getElem?_map]
    cases hi : k[i]? with
    | none =>
      rw [Array.getElem?_eq_none_iff, hs] at hi
      rw [Option.map_none, Array.getElem?_eq_none hi]
    | some a =>
      -- the label stands at another place first, with the same partner
      obtain ⟨j, hj, hlj⟩ := exists_partner hs (Array.mem_of_getElem? hi)
      rw [Option.map_some, ← hlj, ← he j i, hi, hj]

/-- **Two lists of labels group alike exactly if one renames the other.** -/
theorem same_iff_exists_renaming : same k l = true ↔ ∃ f, Renaming f k ∧ k.map f = l := by
  rw [same_iff_groupsAlike]
  exact ⟨fun h => ⟨_, h.renaming_partner⟩, fun ⟨f, hf, hl⟩ => hl ▸ hf.groupsAlike⟩

/-- **The comparison decides whether two lists group alike.** This is an equivalence, and no
renaming of one list or the other changes the answer. -/
theorem same_decides_grouping :
    (∀ k l : Array Nat, same k l = true ↔ GroupsAlike k l) ∧
    Equivalence (fun k l : Array Nat => same k l = true) ∧
    (∀ (f : Nat → Nat) (k l : Array Nat), Renaming f k → same (k.map f) l = same k l) ∧
    ∀ (f : Nat → Nat) (k l : Array Nat), Renaming f l → same k (l.map f) = same k l := by
  refine ⟨fun k l => same_iff_groupsAlike, ⟨fun k => ?_, fun h => ?_, fun h h' => ?_⟩,
    fun f k l hf => ?_, fun f k l hf => ?_⟩
  · exact same_iff_groupsAlike.mpr (.refl k)
  · rw [same_iff_groupsAlike] at h ⊢
    exact h.symm
  · rw [same_iff_groupsAlike] at h h' ⊢
    exact h.trans h'
  · rw [Bool.eq_iff_iff, same_iff_groupsAlike, same_iff_groupsAlike]
    exact ⟨hf.groupsAlike.trans, hf.groupsAlike.symm.trans⟩
  · rw [Bool.eq_iff_iff, same_iff_groupsAlike, same_iff_groupsAlike]
    exact ⟨fun h => h.trans hf.groupsAlike.symm, fun h => h.trans hf.groupsAlike⟩

/-- The labels `1` and `2` renamed to `5` and `3`, in either list. -/
theorem same_decides_grouping_renamed :
    let f : Nat → Nat := fun a => if a = 0 then 0 else 7 - 2 * a
    let k : Array Nat := #[1, 1, 0, 2]
    Renaming f k ∧ k.map f = #[5, 5, 0, 3] ∧ same #[5, 5, 0, 3] k = true ∧
      same k #[5, 5, 0, 3] = true := by
  intro f k
  have hf : Renaming f k := ⟨by decide, by decide, by decide⟩
  have hmap : k.map f = #[5, 5, 0, 3] := by simp [k, f]
  obtain ⟨-, hequiv, hleft, hright⟩ := same_decides_grouping
  refine ⟨hf, hmap, ?_, ?_⟩
  · rw [← hmap, hleft f k k hf]
    exact hequiv.refl k
  · rw [← hmap, hright f k k hf]
    exact hequiv.refl k

end Bitplane.Partition
