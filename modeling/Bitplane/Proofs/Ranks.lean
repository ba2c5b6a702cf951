import Mathlib.Data.Nat.Nth

/-! # Ranks: how many marked numbers there are up to one

The rank of a marked number `i` is `Nat.count p (i + 1)`. Ranks of marked numbers are `1, 2, …` in
order; when one mark is taken away, the ranks behind it go down by one. `rank` also numbers what is
not marked, by `0`. -/

namespace Bitplane.Rank

variable {p q : Nat → Prop} [DecidablePred p] [DecidablePred q] {a i k n : Nat}

/-- **Every rank up to the number of marks is taken.** -/
theorem exists_count_eq (h0 : k ≠ 0) (hk : k ≤ Nat.count p n) :
    ∃ i < n, p i ∧ Nat.count p (i + 1) = k := by
  have hlt : k - 1 < Nat.count p n := by omega
  have hfin : ∀ hf : (Set.ofPred p).Finite, k - 1 < hf.toFinset.card :=
    fun hf => lt_of_lt_of_le hlt (Nat.count_le_card hf n)
  refine ⟨Nat.nth p (k - 1), Nat.nth_lt_of_lt_count hlt, Nat.nth_mem _ hfin, ?_⟩
  rw [Nat.count_nth_succ hfin]
  omega

theorem count_congr (h : ∀ k < n, (p k ↔ q k)) : Nat.count p n = Nat.count q n :=
  Nat.le_antisymm (Nat.count_mono_left fun k hk => (h k hk).mp)
    (Nat.count_mono_left fun k hk => (h k hk).mpr)

theorem count_erase_of_le (h : ∀ k < n, (q k ↔ p k ∧ k ≠ a)) (hn : n ≤ a) :
    Nat.count q n = Nat.count p n :=
  count_congr fun k hk => (h k hk).trans (and_iff_left (by omega))

theorem count_erase_of_lt (ha : p a) (h : ∀ k < n, (q k ↔ p k ∧ k ≠ a)) (hn : a < n) :
    Nat.count q n + 1 = Nat.count p n := by
  induction n with
  | zero => omega
  | succ n ih =>
    have hq := h n (by omega)
    rw [Nat.count_succ, Nat.count_succ]
    rcases Nat.lt_or_ge a n with hlt | hge
    · rw [← ih (fun k hk => h k (by omega)) hlt, if_congr (hq.trans (and_iff_left hlt.ne')) rfl rfl]
      omega
    · have : a = n := by omega
      subst this
      rw [count_erase_of_le (fun k hk => h k (by omega)) (Nat.le_refl a), if_pos ha,
        if_neg fun hc => (hq.mp hc).2 rfl]

/-! ## Marked numbers numbered -/

/-- **The rank of a marked number**: one more than there are marks below it; `0` without a mark. -/
def rank (p : Nat → Prop) [DecidablePred p] (i : Nat) : Nat :=
  if p i then 1 + Nat.count p i else 0

theorem rank_of (h : p i) : rank p i = Nat.count p (i + 1) := by
  unfold rank
  rw [if_pos h, Nat.count_succ_eq_succ_count h, Nat.add_comm]

theorem rank_eq_zero_iff : rank p i = 0 ↔ ¬ p i := by
  unfold rank
  split_ifs with h
  · simp [h]
  · simp [h]

theorem rank_le (hi : i < n) : rank p i ≤ Nat.count p n := by
  by_cases h : p i
  · rw [rank_of h]
    exact Nat.count_monotone p hi
  · rw [rank_eq_zero_iff.mpr h]
    exact Nat.zero_le _

/-- **Ranks are in the order of the marked numbers.** -/
theorem rank_lt_rank_iff (hi : p i) (hk : p k) : rank p i < rank p k ↔ i < k := by
  rw [rank_of hi, rank_of hk]
  constructor
  · intro h
    by_contra hle
    exact Nat.not_lt.mpr (Nat.count_monotone p (Nat.add_le_add_right (not_lt.mp hle) 1)) h
  · intro h
    exact Nat.lt_of_le_of_lt (Nat.count_monotone p h) (Nat.count_lt_count_succ_iff.mpr hk)

theorem rank_eq_rank_iff (hi : p i) (hk : p k) : rank p i = rank p k ↔ i = k := by
  have hlt := rank_lt_rank_iff hi hk
  have hgt := rank_lt_rank_iff hk hi
  omega

end Bitplane.Rank
