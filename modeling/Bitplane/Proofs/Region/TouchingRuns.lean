import Bitplane.Proofs.Region.RunNumbers
import Bitplane.Region.Component
import Bitplane.Region.Report

/-! # Touching runs

What `runsOf` reads from a row, and which runs report that they touch.

* `Run.In`: a run read from a row is a stretch of one label; `exists_mem_runsOf`: every labelled
  column lies in one.
* `map_label_runsOf_numberRow`: in a numbered row the runs have consecutive labels.
* `mem_touched_iff`: a run touches the labels above that are adjacent to one of its pixels.
* `joins_mem_reports_iff`: two labels are reported to join exactly if pixels of theirs are adjacent,
  the second above the first. -/

namespace Bitplane.Region

open LabelGrid Point

variable {c : Connectivity} {g : LabelGrid} {t u : Run} {row : List Nat} {k l o v x y last : Nat}
  {inside : Bool}

/-! ## The runs of a row -/

/-- **The run is a stretch of one label** in a row whose first column is `x`. -/
structure Run.In (x : Nat) (row : List Nat) (t : Run) : Prop where
  le_start : x ≤ t.start
  start_lt : t.start < t.stop
  stop_le : t.stop ≤ x + row.length
  label_ne : t.label ≠ 0
  eq_label : ∀ k, t.start ≤ k → k < t.stop → row[k - x]? = some t.label

theorem Run.In.cons (h : t.In (x + 1) row) (v : Nat) : t.In x (v :: row) := by
  have h1 := h.le_start
  have h2 := h.stop_le
  refine ⟨by omega, h.start_lt, by rw [List.length_cons]; omega, h.label_ne, fun k hk hk' => ?_⟩
  rw [show k - x = (k - (x + 1)) + 1 by omega, List.getElem?_cons_succ]
  exact h.eq_label k hk hk'

/-- A pixel put before the runs makes a run of its own or lengthens the first. -/
theorem mem_consPixel {rs : List Run} (h : t ∈ consPixel x v rs) :
    t ∈ rs ∨ t = ⟨v, x, x + 1⟩ ∨ ∃ u ∈ rs, u.label = v ∧ u.start = x + 1 ∧
      t = { u with start := x } := by
  cases rs with
  | nil =>
    rw [consPixel, List.mem_singleton] at h
    exact .inr (.inl h)
  | cons u rs =>
    rw [consPixel] at h
    split at h
    next hu =>
      rcases List.mem_cons.mp h with rfl | h
      · exact .inr (.inr ⟨u, List.mem_cons_self .., hu.1, hu.2, rfl⟩)
      · exact .inl (List.mem_cons_of_mem u h)
    next =>
      rcases List.mem_cons.mp h with rfl | h
      · exact .inr (.inl rfl)
      · exact .inl h

/-- **The runs read from a row are stretches of one label.** -/
theorem in_of_mem_runsOf (h : t ∈ runsOf x row) : t.In x row := by
  induction row generalizing x t with
  | nil => simp [runsOf] at h
  | cons v row ih =>
    unfold runsOf at h
    by_cases hv : v = 0
    · rw [if_pos hv] at h
      exact (ih h).cons v
    · rw [if_neg hv] at h
      rcases mem_consPixel h with h | rfl | ⟨u, hu, hl, hs, rfl⟩
      · exact (ih h).cons v
      · refine ⟨le_refl x, by simp, by simp, hv, fun k hk hk' => ?_⟩
        have : k = x := by simp only at hk hk'; omega
        simp [this]
      · have hin := (ih hu).cons v
        have h1 := hin.start_lt
        refine ⟨le_refl x, by simp only; omega, hin.stop_le, hin.label_ne, fun k hk hk' => ?_⟩
        simp only at hk hk'
        rcases Nat.eq_or_lt_of_le hk with rfl | hlt
        · simp [hl]
        · exact hin.eq_label k (by omega) hk'

/-- A run stays, but perhaps longer, when a pixel is put before it. -/
theorem exists_mem_consPixel {rs : List Run} (h : u ∈ rs) :
    ∃ t ∈ consPixel x v rs, t.label = u.label ∧ t.stop = u.stop ∧ (t.start = u.start ∨
      u.start = x + 1 ∧ t.start = x) := by
  cases rs with
  | nil => cases h
  | cons w rs =>
    rw [consPixel]
    split
    next hw =>
      rcases List.mem_cons.mp h with rfl | h
      · exact ⟨_, List.mem_cons_self .., rfl, rfl, .inr ⟨hw.2, rfl⟩⟩
      · exact ⟨u, List.mem_cons_of_mem _ h, rfl, rfl, .inl rfl⟩
    next => exact ⟨u, List.mem_cons_of_mem _ h, rfl, rfl, .inl rfl⟩

theorem exists_mem_consPixel_self (x v : Nat) (rs : List Run)
    (hrs : ∀ u ∈ rs, u.start < u.stop) :
    ∃ t ∈ consPixel x v rs, t.label = v ∧ t.start = x ∧ x < t.stop := by
  cases rs with
  | nil => exact ⟨_, List.mem_singleton_self _, rfl, rfl, Nat.lt_succ_self x⟩
  | cons u rs =>
    rw [consPixel]
    split
    next hu =>
      have := hrs u (List.mem_cons_self ..)
      exact ⟨_, List.mem_cons_self .., hu.1, rfl, by simp only; omega⟩
    next => exact ⟨_, List.mem_cons_self .., rfl, rfl, Nat.lt_succ_self x⟩

theorem exists_mem_runsOf (hk : row[k]? = some v) (hv : v ≠ 0) :
    ∃ t ∈ runsOf x row, t.label = v ∧ t.start ≤ x + k ∧ x + k < t.stop := by
  induction row generalizing x k with
  | nil => simp at hk
  | cons w row ih =>
    unfold runsOf
    cases k with
    | zero =>
      rw [List.getElem?_cons_zero, Option.some.injEq] at hk
      subst hk
      rw [if_neg hv]
      obtain ⟨t, ht, h1, h2, h3⟩ := exists_mem_consPixel_self x w (runsOf (x + 1) row)
        fun u hu => (in_of_mem_runsOf hu).start_lt
      exact ⟨t, ht, h1, by omega, h3⟩
    | succ k =>
      rw [List.getElem?_cons_succ] at hk
      obtain ⟨u, hu, h1, h2, h3⟩ := ih (x := x + 1) hk
      split
      · exact ⟨u, hu, h1, by omega, by omega⟩
      · obtain ⟨t, ht, e1, e2, e3⟩ := exists_mem_consPixel (x := x) (v := w) hu
        exact ⟨t, ht, by rw [e1, h1], by omega, by omega⟩

theorem exists_consPixel_eq (x v : Nat) (rs : List Run) :
    ∃ t us, consPixel x v rs = t :: us ∧ t.label = v ∧ t.start = x := by
  cases rs with
  | nil => exact ⟨_, _, rfl, rfl, rfl⟩
  | cons u rs =>
    rw [consPixel]
    split
    next hu => exact ⟨_, _, rfl, hu.1, rfl⟩
    next => exact ⟨_, _, rfl, rfl, rfl⟩

theorem consPixel_of_lt {rs : List Run} (h : ∀ u ∈ rs, x + 1 < u.start) :
    consPixel x v rs = ⟨v, x, x + 1⟩ :: rs := by
  cases rs with
  | nil => rfl
  | cons u rs =>
    have := h u (List.mem_cons_self ..)
    rw [consPixel, if_neg (by omega)]

/-- **In a numbered row the runs have consecutive labels**; the first may be that of a run that goes
on from before the row. -/
theorem map_label_runsOf_numberRow (row : List Nat) : ∀ (x last : Nat) (inside : Bool),
    (inside = true → last ≠ 0) → (runsOf x (numberRow last inside row)).map Run.label =
      (if inside = true ∧ row.headD 0 ≠ 0 then [last] else []) ++
        List.range' (last + 1) (countRuns inside.toNat row) := by
  induction row with
  | nil => intro x last inside _; simp [numberRow, runsOf, countRuns]
  | cons v row ih =>
    intro x last inside hl
    unfold numberRow
    by_cases hv : v = 0
    · subst hv
      rw [if_pos rfl, runsOf, if_pos rfl, ih _ _ _ (by simp)]
      simp [countRuns]
    · have key : ∀ m ≠ 0, (consPixel x m (runsOf (x + 1) (numberRow m true row))).map Run.label =
          m :: List.range' (m + 1) (countRuns v row) := by
        intro m hm
        have hrest := ih (x + 1) m true fun _ => hm
        rw [Bool.toNat_true, countRuns_congr (b := v) (by simp [hv])] at hrest
        by_cases hw : row.headD 0 = 0
        · have hlt : ∀ u ∈ runsOf (x + 1) (numberRow m true row), x + 1 < u.start := by
            intro u hu
            cases row with
            | nil => simp [numberRow, runsOf] at hu
            | cons w row =>
              rw [List.headD_cons] at hw
              rw [numberRow, if_pos hw, runsOf, if_pos rfl] at hu
              exact (in_of_mem_runsOf hu).le_start
          rw [consPixel_of_lt hlt, List.map_cons, hrest, if_neg fun hc => hc.2 hw, List.nil_append]
        · cases row with
          | nil => exact absurd rfl hw
          | cons w row =>
            rw [List.headD_cons] at hw
            rw [if_pos ⟨rfl, hw⟩] at hrest
            rw [numberRow, if_neg hw] at hrest ⊢
            simp only [if_true] at hrest ⊢
            rw [runsOf, if_neg hm] at hrest ⊢
            obtain ⟨t, us, he, h1, h2⟩ := exists_consPixel_eq (x + 1) m
              (runsOf (x + 1 + 1) (numberRow m true row))
            rw [he] at hrest ⊢
            rw [consPixel, if_pos ⟨h1, h2⟩]
            exact hrest
      rw [if_neg hv]
      simp only
      cases inside with
      | true =>
        rw [if_pos rfl, runsOf, if_neg (hl rfl), key _ (hl rfl)]
        simp [countRuns, hv]
      | false =>
        rw [if_neg (by simp), runsOf, if_neg (by omega), key _ (by omega)]
        simp [countRuns, hv, List.range'_succ, Nat.add_comm 1]

/-! ## Touched runs -/

theorem mem_runLabels (last : Nat) (row : List Nat) :
    (v ∈ runLabels last row → v ≠ 0 ∧ v ∈ row) ∧
      (v ≠ 0 → v ∈ row → v ∈ runLabels last row ∨ v = last) := by
  induction row generalizing last with
  | nil => simp [runLabels]
  | cons w row ih =>
    obtain ⟨ih1, ih2⟩ := ih w
    unfold runLabels
    split
    next hw =>
      constructor
      · intro h
        rcases List.mem_cons.mp h with rfl | h
        · exact ⟨hw.1, List.mem_cons_self ..⟩
        · exact ⟨(ih1 h).1, List.mem_cons_of_mem w (ih1 h).2⟩
      · intro hv h
        rcases List.mem_cons.mp h with rfl | h
        · exact .inl (List.mem_cons_self ..)
        · rcases ih2 hv h with h | rfl
          · exact .inl (List.mem_cons_of_mem w h)
          · exact .inl (List.mem_cons_self ..)
    next hw =>
      constructor
      · intro h
        exact ⟨(ih1 h).1, List.mem_cons_of_mem w (ih1 h).2⟩
      · have hskip : w ≠ 0 → w = last := by
          intro h0
          by_contra hne
          exact hw ⟨h0, hne⟩
        intro hv h
        rcases List.mem_cons.mp h with rfl | h
        · exact .inr (hskip hv)
        · rcases ih2 hv h with h | rfl
          · exact .inl h
          · exact .inr (hskip hv)

theorem mem_runLabels_iff : v ∈ runLabels 0 row ↔ v ≠ 0 ∧ v ∈ row := by
  obtain ⟨h1, h2⟩ := mem_runLabels (v := v) 0 row
  refine ⟨h1, fun h => ?_⟩
  rcases h2 h.1 h.2 with hm | h0
  · exact hm
  · exact absurd h0 h.1

theorem mem_touched_iff {above : Array Nat} : v ∈ touched c above t ↔ v ≠ 0 ∧
    ∃ x, (reach c above.size t).1 ≤ x ∧ x < (reach c above.size t).2 ∧ above[x]? = some v := by
  unfold touched
  simp only [mem_runLabels_iff, Array.mem_toList_iff]
  refine and_congr_right fun _ => ?_
  rw [Array.mem_iff_getElem?]
  constructor
  · rintro ⟨k, hk⟩
    rw [Array.getElem?_extract] at hk
    split at hk
    · exact ⟨_, Nat.le_add_right _ k, by omega, hk⟩
    · cases hk
  · rintro ⟨x, h1, h2, hx⟩
    have hlt : x < above.size := by
      by_contra hge
      rw [Array.getElem?_eq_none (not_lt.mp hge)] at hx
      cases hx
    refine ⟨x - (reach c above.size t).1, ?_⟩
    rw [Array.getElem?_extract, if_pos (by omega), Nat.add_sub_cancel' h1]
    exact hx

/-- **A run reaches the columns above that are adjacent to one of its pixels.** -/
theorem mem_reach_iff {w : Nat} (ht : t.start < t.stop) (hw : t.stop ≤ w) (hx : x < w) :
    (reach c w t).1 ≤ x ∧ x < (reach c w t).2 ↔
      ∃ x', t.start ≤ x' ∧ x' < t.stop ∧ Adjacent c ⟨x', y + 1⟩ ⟨x, y⟩ := by
  cases c with
  | four =>
    simp only [reach, adjacent_four_iff]
    constructor
    · rintro ⟨h1, h2⟩
      exact ⟨x, h1, h2, by simp⟩
    · rintro ⟨x', h1, h2, h3⟩
      omega
  | eight =>
    simp only [reach, adjacent_eight_iff]
    constructor
    · rintro ⟨h1, h2⟩
      -- the pixel of the run that is nearest to the column
      rcases Nat.lt_or_ge x t.start with h | h
      · exact ⟨t.start, le_refl _, ht, by omega⟩
      · rcases Nat.lt_or_ge x t.stop with h' | h'
        · exact ⟨x, h, h', by omega⟩
        · exact ⟨t.stop - 1, by omega, by omega, by omega⟩
    · rintro ⟨x', h1, h2, h3⟩
      omega

/-! ## The reports of a grid -/

theorem joins_mem_run_reports {us : List Nat} :
    Report.joins l o ∈ t.reports us ↔ t.label = l ∧ o ∈ us := by
  cases us with
  | nil => simp [Run.reports]
  | cons u us =>
    unfold Run.reports
    rw [List.mem_map]
    constructor
    · rintro ⟨w, hw, he⟩
      cases he
      exact ⟨rfl, hw⟩
    · rintro ⟨rfl, ho⟩
      exact ⟨o, ho, rfl⟩

/-- **Labels are reported to join exactly if pixels of theirs are adjacent**, one above
the other. -/
theorem joins_mem_reports_iff : Report.joins l o ∈ reports c g ↔ l ≠ 0 ∧ o ≠ 0 ∧
    ∃ x < g.width, ∃ x' < g.width, ∃ y, y + 1 < g.height ∧ g.labelOf (g.width * (y + 1) + x) = l ∧
      g.labelOf (g.width * y + x') = o ∧ Adjacent c ⟨x, y + 1⟩ ⟨x', y⟩ := by
  unfold reports rowReports
  simp only [List.mem_flatMap, List.mem_range, joins_mem_run_reports]
  constructor
  · rintro ⟨y, hy, t, ht, rfl, ho⟩
    obtain ⟨h0, x', hx1, hx2, hx'⟩ := mem_touched_iff.mp ho
    cases y with
    | zero => simp at hx'
    | succ y =>
      have hin := in_of_mem_runsOf ht
      have hstop := hin.stop_le
      rw [length_row hy, Nat.zero_add] at hstop
      simp only [Nat.succ_ne_zero, if_false, Nat.add_sub_cancel, List.size_toArray,
        List.getElem?_toArray, length_row (show y < g.height by omega)] at hx1 hx2 hx'
      have hxw : x' < g.width := lt_width_of_row hx'
      obtain ⟨x, h1, h2, hadj⟩ := (mem_reach_iff (y := y) hin.start_lt hstop hxw).mp ⟨hx1, hx2⟩
      have hx := hin.eq_label x h1 h2
      rw [Nat.sub_zero, row_getElem? (by omega) hy, Option.some.injEq] at hx
      rw [row_getElem? hxw (by omega), Option.some.injEq] at hx'
      exact ⟨hin.label_ne, h0, x, by omega, x', hxw, y, hy, hx, hx', hadj⟩
  · rintro ⟨hl0, ho0, x, hx, x', hx', y, hy, hl, ho, hadj⟩
    have hrow := row_getElem? hx hy
    obtain ⟨t, ht, hlab, h1, h2⟩ := exists_mem_runsOf (x := 0) hrow (hl ▸ hl0)
    have hin := in_of_mem_runsOf ht
    have hstop := hin.stop_le
    rw [length_row hy, Nat.zero_add] at hstop
    refine ⟨y + 1, hy, t, ht, hlab.trans hl, mem_touched_iff.mpr ⟨ho0, x', ?_⟩⟩
    simp only [Nat.succ_ne_zero, if_false, Nat.add_sub_cancel, List.size_toArray,
      List.getElem?_toArray, length_row (show y < g.height by omega)]
    rw [Nat.zero_add] at h1 h2
    obtain ⟨h3, h4⟩ := (mem_reach_iff hin.start_lt hstop hx').mpr ⟨x, h1, h2, hadj⟩
    exact ⟨h3, h4, by rw [row_getElem? hx' (by omega), ho]⟩

end Bitplane.Region
