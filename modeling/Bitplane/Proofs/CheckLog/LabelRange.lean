import Bitplane.Proofs.CheckLog.Findings
import Bitplane.LabelGrid.Lemmas

/-! # What a check of labels enforces

A check of labels looks at no more than the largest label of the grid. A grid *uses exactly* the
labels `1, …, n` if it has all of them and no other beside background; its labels *have no gap* if
every number below a label is one too.

* `usesExactly_iff`: a grid uses exactly the labels up to its largest one if they have no gap, and
  exactly those up to no other number.
* `checkLabels_bounds_labels`: so the check enforces the labels `1, …, n` exactly on the grids
  without a gap, and of any other it bounds the labels from above.
* `checkLabels_accepts_gap`: a grid without the label `1` that passes. -/

namespace Bitplane

namespace LabelGrid

variable {g : LabelGrid} {n : Nat}

/-- **The labels in use are `1, …, n`**, beside background. -/
def UsesExactly (g : LabelGrid) (n : Nat) : Prop := ∀ k ≠ 0, (k ∈ g.labels ↔ k ≤ n)

/-- **No number below a label is left out.** -/
def GapFree (g : LabelGrid) : Prop := ∀ l ∈ g.labels, ∀ k ≠ 0, k ≤ l → k ∈ g.labels

theorem maxLabel_eq_iff :
    g.maxLabel = n ↔ (∀ k ∈ g.labels, k ≤ n) ∧ (n ≠ 0 → n ∈ g.labels) := by
  constructor
  · rintro rfl
    exact ⟨fun k hk => le_maxLabel_of_mem hk, maxLabel_mem⟩
  · rintro ⟨hle, hn⟩
    refine Nat.le_antisymm ?_ ?_
    · by_cases h0 : g.maxLabel = 0
      · omega
      · exact hle _ (maxLabel_mem h0)
    · by_cases h0 : n = 0
      · omega
      · exact le_maxLabel_of_mem (hn h0)

theorem UsesExactly.maxLabel_eq (h : g.UsesExactly n) : g.maxLabel = n := by
  refine maxLabel_eq_iff.mpr ⟨fun k hk => ?_, fun h0 => (h n h0).mpr (Nat.le_refl n)⟩
  by_cases h0 : k = 0
  · omega
  · exact (h k h0).mp hk

theorem UsesExactly.gapFree (h : g.UsesExactly n) : g.GapFree := by
  intro l hl k h0 hkl
  have hln := (h l (by omega)).mp hl
  exact (h k h0).mpr (by omega)

theorem GapFree.usesExactly (h : g.GapFree) : g.UsesExactly g.maxLabel := by
  intro k h0
  refine ⟨le_maxLabel_of_mem, fun hk => ?_⟩
  exact h _ (maxLabel_mem (by omega)) k h0 hk

/-- **A grid uses exactly the labels up to its largest one**, if they have no gap. -/
theorem usesExactly_iff : g.UsesExactly n ↔ g.maxLabel = n ∧ g.GapFree := by
  constructor
  · intro h
    exact ⟨h.maxLabel_eq, h.gapFree⟩
  · rintro ⟨rfl, h⟩
    exact h.usesExactly

end LabelGrid

namespace CheckLog

variable {l : CheckLog} {g : LabelGrid} {expected actual : Nat}

theorem findLabels_eq_none_iff :
    findLabels expected actual g = none ↔ expected = actual ∧ g.maxLabel = expected := by
  unfold findLabels
  by_cases he : expected = actual
  · subst he
    simp
  · simp [he]

theorem checkLabels_passes_iff :
    (l.checkLabels expected actual g).1 = true ↔ expected = actual ∧ g.maxLabel = expected := by
  rw [checkLabels_eq]
  exact check_passes_iff.trans findLabels_eq_none_iff

/-- **A check of labels bounds them from above.** In every log it passes, and adds no failure,
exactly if the two counts agree, no label is above them and they are a label themselves, unless `0`;
and that means that the labels `1, …, expected` are in use, and no other, exactly on the grids
without a gap. -/
theorem checkLabels_bounds_labels (g : LabelGrid) :
    (∀ (l : CheckLog) (expected actual : Nat),
      ((l.checkLabels expected actual g).1 = true ↔ expected = actual ∧
        (∀ k ∈ g.labels, k ≤ expected) ∧ (expected ≠ 0 → expected ∈ g.labels)) ∧
      ((l.checkLabels expected actual g).2.failures = l.failures ↔
        (l.checkLabels expected actual g).1 = true)) ∧
    ((∀ (l : CheckLog) (expected actual : Nat),
      (l.checkLabels expected actual g).1 = true ↔ expected = actual ∧ g.UsesExactly expected) ↔
        g.GapFree) := by
  refine ⟨fun l expected actual => ⟨?_, ?_⟩, fun h => ?_, fun h l expected actual => ?_⟩
  · rw [checkLabels_passes_iff, LabelGrid.maxLabel_eq_iff]
  · rw [checkLabels_eq]
    exact failures_check_eq_iff.trans check_passes_iff.symm
  · have hpass := (checkLabels_passes_iff (l := start "" .compare) (g := g)).mpr ⟨rfl, rfl⟩
    exact ((h _ _ _).mp hpass).2.gapFree
  · rw [checkLabels_passes_iff, LabelGrid.usesExactly_iff, and_iff_left h]

/-- A grid of the labels `0` and `2` passes for one of two components, though it has no
label `1`. -/
theorem checkLabels_accepts_gap :
    let g : LabelGrid := ⟨2, 2, #[2, 0, 0, 2], by decide, by decide, by decide⟩
    let checked := (start "gap" .compare).checkLabels 2 2 g
    checked.1 = true ∧ checked.2.failures = [] ∧ 1 ∉ g.labels ∧ ¬ g.UsesExactly 2 := by
  intro g checked
  have h1 : 1 ∉ g.labels := by simp [g]
  exact ⟨rfl, rfl, h1, fun h => h1 ((h 1 (by decide)).mpr (by decide))⟩

end CheckLog

end Bitplane
