import Bitplane.Proofs.Region.CheckedRows
import Bitplane.Proofs.Region.CutComponents

/-! # What labeling in words can answer

On a raster whose sides are words, padded as it may be, labeling and cutting out are refused for a
side below two and for too many runs, and for nothing else; otherwise they succeed with the answer
that the unbounded passes give, and no step is out of range.

* `Refused`: the two refusals.
* `ResolvesRuns`: the runs, the table and the labels of a picture that is not refused.
* `labelChecked_of_runs`, `componentsChecked_of_label`: the passes in turn.
* `labelChecked_eq`, `componentsChecked_eq`: the answers are those of the unbounded passes.
* `labeling_in_words`: the outcomes of both. -/

namespace Bitplane.Raster

open Region

variable {r s : Raster} {o : Options} {l : Labeling}

/-- **What labeling is refused for**: a side below two, or, in a picture with sides large enough,
more runs than there are labels in the picture that is labelled. -/
inductive Refused (r : Raster) (o : Options) : Halt → Prop
  /-- A side is below two. -/
  | tooSmall (h : r.width < 2 ∨ r.height < 2) :
    Refused r o (.refused (.raster (.tooSmall r.width r.height 2)))
  /-- The picture that is labelled has too many runs; the sides named are those of the raster. -/
  | tooManyRuns {s : Raster} (hw : 2 ≤ r.width) (hh : 2 ≤ r.height) (hs : r.labelSource o = .ok s)
    (hruns : runLimit ≤ s.runCount) : Refused r o (.refused (.imageTooLarge r.width r.height))

/-- **How the runs of a picture get their final labels**: they are numbered in `n`, the numbers are
looked up in `table`, which has an entry for each and for background, and the labels are its
entries. -/
structure ResolvesRuns (o : Options) (s : Raster) (n : LabelGrid) (table : Array Nat)
    (l : Labeling) :
    Prop where
  numbered : Checked.numberRuns o.strategy s.levels = .ok (n, s.runCount)
  resolved : Checked.resolve o.strategy o.algorithm s.runCount (reports o.connectivity n) =
    .ok (table, l.count)
  grid_eq : l.grid = n.update o.strategy fun _ row => row.map fun k => table[k]?.getD 0
  /-- The provisional labels are the numbers of runs. -/
  label_le : ∀ k ∈ n.labels, k ≤ s.runCount
  size_table : table.size = s.runCount + 1
  /-- No component has a number above their count, nor are there more of them than runs. -/
  entry_le : ∀ k ∈ table, k ≤ l.count
  count_le : l.count ≤ s.runCount

/-! ## The picture that is labelled -/

theorem exists_source (o : Options) (hw : 2 ≤ r.width) (hh : 2 ≤ r.height) :
    ∃ s, r.labelSource o = .ok s ∧ s.width = r.width ∧ s.height = r.height := by
  unfold labelSource filterIsolatedWith
  rw [Morphology.sweep?_ok _ _ hw hh]
  cases o.filterIsolated with
  | false => exact ⟨r, rfl, rfl, rfl⟩
  | true => exact ⟨_, rfl, rfl, rfl⟩

theorem size_source (hw : 2 ≤ r.width) (hh : 2 ≤ r.height) (hs : r.labelSource o = .ok s) :
    s.width = r.width ∧ s.height = r.height := by
  obtain ⟨s', hs', hsize⟩ := exists_source o hw hh
  obtain rfl : s' = s := Except.ok.inj (hs'.symm.trans hs)
  exact hsize

theorem checkedSource_eq (hh : r.height < wordLimit) :
    Checked.source o r = (r.labelSource o).mapError .refused := by
  unfold Checked.source labelSource
  cases o.filterIsolated with
  | false => rfl
  | true =>
    rw [if_pos rfl, if_pos rfl, Checked.filter_eq o.strategy (hh.trans (by decide))]
    cases r.filterIsolatedWith o.strategy <;> rfl

/-! ## Labels -/

theorem labelChecked_of_sides (h : r.width < 2 ∨ r.height < 2) :
    r.labelChecked o = .error (.refused (.raster (.tooSmall r.width r.height 2))) := by
  unfold labelChecked
  rw [checkSides_tooSmall h]
  rfl

section

variable (hw : r.width < wordLimit) (hh : r.height < wordLimit) (hw2 : 2 ≤ r.width)
  (hh2 : 2 ≤ r.height) (hs : r.labelSource o = .ok s)
include hw hh hw2 hh2 hs

theorem labelChecked_eq_bind : r.labelChecked o = (do
    let (numbered, runs) ← (numberRuns o.strategy s.levels).mapError .refused
    let reports ← Checked.reports o.connectivity numbered
    let (table, count) ← Checked.resolve o.strategy o.algorithm runs reports
    let grid ← Checked.updateLabels o.strategy (fun _ row => Checked.lookUp table row) numbered
    return ⟨grid, count⟩) := by
  obtain ⟨hsw, hsh⟩ := size_source hw2 hh2 hs
  have hw' : s.width < wordLimit := hsw ▸ hw
  have hh' : s.height < wordLimit := hsh ▸ hh
  unfold labelChecked
  rw [checkSides_ok hw2 hh2, checkedSource_eq hh, hs]
  simp only [Except.mapError, ok_bind]
  rw [Checked.levels_eq hw' hh', ok_bind,
    Checked.numberRuns_eq (g := s.levels) hw' hh' o.strategy]
  rfl

theorem labelChecked_of_tooManyRuns (hruns : runLimit ≤ s.runCount) :
    r.labelChecked o = .error (.refused (.imageTooLarge r.width r.height)) := by
  have hlevels : runLimit ≤ s.levels.runCount := by rwa [runCount_levels]
  rw [labelChecked_eq_bind hw hh hw2 hh2 hs, numberRuns_error o.strategy hlevels]
  obtain ⟨hsw, hsh⟩ := size_source hw2 hh2 hs
  rw [← hsw, ← hsh]
  rfl

/-- **Labels of a picture with few enough runs**: every step has what it relies on. -/
theorem labelChecked_of_runs (hruns : s.runCount < runLimit) :
    ∃ n table l, r.labelChecked o = .ok l ∧ r.label o = .ok l ∧ ResolvesRuns o s n table l := by
  obtain ⟨hsw, hsh⟩ := size_source hw2 hh2 hs
  obtain ⟨n, hn, hnum⟩ := exists_numbered o hruns
  have hlimit : runLimit < wordLimit := by decide
  have hmention := mentioned?_reports hnum o.connectivity
  rw [runCount_levels] at hmention
  have hresolve := Checked.resolve_eq o.strategy o.algorithm hmention (by omega)
  have htable := o.algorithm.resolve_eq hmention
  rw [Forest.resolved_eq, Forest.size_foldl_take, Forest.size_singletons] at htable
  set forest := (reports o.connectivity n).foldl Forest.take (.singletons s.runCount)
  set table := (Array.range (s.runCount + 1)).map forest.numberOf with ht
  rw [htable] at hresolve
  have hle : ∀ k ∈ n.labels, k ≤ s.runCount := fun k hk => by
    rw [← runCount_levels]
    exact hnum.le_of_mem hk
  have hsize : table.size = s.runCount + 1 := by rw [ht, Array.size_map, Array.size_range]
  have hlook : Checked.updateLabels o.strategy (fun _ row => Checked.lookUp table row) n =
      .ok (n.update o.strategy fun _ row => row.map fun k => table[k]?.getD 0) :=
    Checked.lookUp_eq fun k hk => by have := hle k hk; omega
  have hentry : ∀ k ∈ table, k ≤ Nat.count forest.IsHead (s.runCount + 1) := fun k hk => by
    obtain ⟨i, hi, rfl⟩ := Array.mem_map.mp hk
    exact Forest.numberOf_le_count (Array.mem_range.mp hi)
  have hnumbered : Checked.numberRuns o.strategy s.levels = .ok (n, s.runCount) := by
    have hw' : s.levels.width < wordLimit := lt_of_eq_of_lt hsw hw
    have hh' : s.levels.height < wordLimit := lt_of_eq_of_lt hsh hh
    rw [Checked.numberRuns_eq hw' hh', hn]
    rfl
  refine ⟨n, table, ⟨n.update o.strategy fun _ row => row.map fun k => table[k]?.getD 0,
    Nat.count forest.IsHead (s.runCount + 1)⟩, ?_, ?_, hnumbered, hresolve, rfl, hle, hsize, hentry,
    forest.count_isHead_le s.runCount⟩
  · rw [labelChecked_eq_bind hw hh hw2 hh2 hs, hn]
    simp only [Except.mapError, ok_bind, Checked.reports_eq, hresolve, hlook]
    rfl
  · unfold label
    rw [checkSides_ok hw2 hh2, hs]
    simp only [Except.mapError, ok_bind, hn, htable]
    rfl

/-- **The components of a labelled picture are cut out** without a step out of range. -/
theorem componentsChecked_of_label (hl : r.label o = .ok l) (hc : r.labelChecked o = .ok l)
    (hcount : l.count < wordLimit) :
    ∃ bs, r.componentsChecked o = .ok bs ∧ r.components o = .ok bs := by
  obtain ⟨hsw, hsh⟩ := size_source hw2 hh2 hs
  have hls : s.label (o.withFilterIsolated false) = .ok l := by
    rwa [← label_of_labelSource hs hsw hsh]
  obtain ⟨hgw, hgh, -⟩ := numbersComponents_of_label rfl hls
  obtain ⟨bs, hbs, -⟩ := exists_gridBoxes_of_label rfl hls
  refine ⟨bs, ?_, ?_⟩
  · unfold componentsChecked
    rw [hc, ok_bind, extract_eq (by omega) (by omega) hcount, hbs]
    rfl
  · unfold components
    rw [hl, ok_bind, hbs]

end

theorem componentsChecked_of_error {e : Halt} (h : r.labelChecked o = .error e) :
    r.componentsChecked o = .error e := by
  unfold componentsChecked
  rw [h]
  rfl

theorem label_of_tooManyRuns (hw2 : 2 ≤ r.width) (hh2 : 2 ≤ r.height) (hs : r.labelSource o = .ok s)
    (hruns : runLimit ≤ s.runCount) : r.label o = .error (.imageTooLarge r.width r.height) := by
  obtain ⟨hsw, hsh⟩ := size_source hw2 hh2 hs
  rw [label_of_labelSource hs hsw hsh,
    label_error_of_runs (by omega) (by omega) rfl hruns, hsw, hsh]

/-- **Words change no answer of labeling.** -/
theorem labelChecked_eq (hw : r.width < wordLimit) (hh : r.height < wordLimit) (o : Options) :
    r.labelChecked o = (r.label o).mapError .refused := by
  by_cases hsmall : r.width < 2 ∨ r.height < 2
  · rw [labelChecked_of_sides hsmall, label_error_of_sides hsmall]
    rfl
  · obtain ⟨hw2, hh2⟩ : 2 ≤ r.width ∧ 2 ≤ r.height := by omega
    obtain ⟨s, hs, -⟩ := exists_source o hw2 hh2
    rcases Nat.lt_or_ge s.runCount runLimit with hruns | hruns
    · obtain ⟨n, table, l, hc, hl, -⟩ := labelChecked_of_runs hw hh hw2 hh2 hs hruns
      rw [hc, hl]
      rfl
    · rw [labelChecked_of_tooManyRuns hw hh hw2 hh2 hs hruns,
        label_of_tooManyRuns hw2 hh2 hs hruns]
      rfl

/-- **Words change no answer of cutting out components.** -/
theorem componentsChecked_eq (hw : r.width < wordLimit) (hh : r.height < wordLimit) (o : Options) :
    r.componentsChecked o = (r.components o).mapError .refused := by
  have hc := labelChecked_eq hw hh o
  cases hl : r.label o with
  | error e =>
    rw [hl] at hc
    rw [componentsChecked_of_error hc]
    unfold components
    rw [hl]
    rfl
  | ok l =>
    obtain ⟨hw2, hh2⟩ := sides_of_label hl
    obtain ⟨s, hs, -⟩ := exists_source o hw2 hh2
    rcases Nat.lt_or_ge s.runCount runLimit with hruns | hruns
    · obtain ⟨n, table, l', hc', hl', hres⟩ := labelChecked_of_runs hw hh hw2 hh2 hs hruns
      obtain rfl : l' = l := Except.ok.inj (hl'.symm.trans hl)
      have hcount : l'.count < wordLimit := (hres.count_le.trans_lt hruns).trans (by decide)
      obtain ⟨bs, hbc, hbs⟩ := componentsChecked_of_label hw hh hw2 hh2 hs hl hc' hcount
      rw [hbc, hbs]
      rfl
    · rw [label_of_tooManyRuns hw2 hh2 hs hruns] at hl
      cases hl

/-! ## Outcomes -/

/-- What answers both refusals where they are due, and succeeds elsewhere, is refused for nothing
else. -/
theorem error_iff_refused {α : Type} {x : Except Halt α}
    (hsides : r.width < 2 ∨ r.height < 2 →
      x = .error (.refused (.raster (.tooSmall r.width r.height 2))))
    (hmany : ∀ s, 2 ≤ r.width → 2 ≤ r.height → r.labelSource o = .ok s → runLimit ≤ s.runCount →
      x = .error (.refused (.imageTooLarge r.width r.height)))
    (hfew : ∀ s, 2 ≤ r.width → 2 ≤ r.height → r.labelSource o = .ok s → s.runCount < runLimit →
      ∃ v, x = .ok v) (e : Halt) : x = .error e ↔ r.Refused o e := by
  constructor
  · intro he
    by_cases hsmall : r.width < 2 ∨ r.height < 2
    · obtain rfl := Except.error.inj ((hsides hsmall).symm.trans he)
      exact .tooSmall hsmall
    · obtain ⟨hw, hh⟩ : 2 ≤ r.width ∧ 2 ≤ r.height := by omega
      obtain ⟨s, hs, -⟩ := exists_source o hw hh
      rcases Nat.lt_or_ge s.runCount runLimit with hruns | hruns
      · obtain ⟨v, hv⟩ := hfew s hw hh hs hruns
        rw [hv] at he
        cases he
      · obtain rfl := Except.error.inj ((hmany s hw hh hs hruns).symm.trans he)
        exact .tooManyRuns hw hh hs hruns
  · rintro (hsmall | ⟨hw, hh, hs, hruns⟩)
    · exact hsides hsmall
    · exact hmany _ hw hh hs hruns

/-- **The outcomes of labeling in words**, for every raster whose sides are words, padded as it may
be: both functions are refused exactly as `Refused` says, so that no step of either is out of range;
and a picture with few enough runs is labelled and cut out as it is without words, through
provisional labels that stay below the number of runs and a table that holds them all. -/
theorem labeling_in_words (hw : r.width < wordLimit) (hh : r.height < wordLimit) (o : Options) :
    (∀ e, r.labelChecked o = .error e ↔ r.Refused o e) ∧
    (∀ e, r.componentsChecked o = .error e ↔ r.Refused o e) ∧
    (2 ≤ r.width → 2 ≤ r.height → ∃ s, r.labelSource o = .ok s ∧ s.width = r.width ∧
      s.height = r.height ∧ (s.runCount < runLimit → ∃ l bs n table,
        r.labelChecked o = .ok l ∧ r.label o = .ok l ∧
        r.componentsChecked o = .ok bs ∧ r.components o = .ok bs ∧
          ResolvesRuns o s n table l)) := by
  have hmany : ∀ s, 2 ≤ r.width → 2 ≤ r.height → r.labelSource o = .ok s → runLimit ≤ s.runCount →
      r.labelChecked o = .error (.refused (.imageTooLarge r.width r.height)) :=
    fun s hw2 hh2 hs hruns => labelChecked_of_tooManyRuns hw hh hw2 hh2 hs hruns
  have hfew : ∀ s, 2 ≤ r.width → 2 ≤ r.height → r.labelSource o = .ok s → s.runCount < runLimit →
      ∃ l bs n table, r.labelChecked o = .ok l ∧ r.label o = .ok l ∧
        r.componentsChecked o = .ok bs ∧ r.components o = .ok bs ∧ ResolvesRuns o s n table l :=
    fun s hw2 hh2 hs hruns => by
      obtain ⟨n, table, l, hc, hl, hres⟩ := labelChecked_of_runs hw hh hw2 hh2 hs hruns
      have hcount : l.count < wordLimit :=
        (hres.count_le.trans_lt hruns).trans (by decide)
      obtain ⟨bs, hbc, hbs⟩ := componentsChecked_of_label hw hh hw2 hh2 hs hl hc hcount
      exact ⟨l, bs, n, table, hc, hl, hbc, hbs, hres⟩
  refine ⟨error_iff_refused labelChecked_of_sides hmany fun s hw2 hh2 hs hruns => ?_,
    error_iff_refused (fun h => componentsChecked_of_error (labelChecked_of_sides h))
      (fun s hw2 hh2 hs hruns => componentsChecked_of_error (hmany s hw2 hh2 hs hruns))
      fun s hw2 hh2 hs hruns => ?_, fun hw2 hh2 => ?_⟩
  · obtain ⟨l, -, -, -, hc, -⟩ := hfew s hw2 hh2 hs hruns
    exact ⟨l, hc⟩
  · obtain ⟨-, bs, -, -, -, -, hbc, -⟩ := hfew s hw2 hh2 hs hruns
    exact ⟨bs, hbc⟩
  · obtain ⟨s, hs, hsw, hsh⟩ := exists_source o hw2 hh2
    exact ⟨s, hs, hsw, hsh, hfew s hw2 hh2 hs⟩

/-- Padding that is set, and four runs, one of them an isolated pixel that is removed first. -/
theorem labeling_in_words_filtered :
    let r : Raster := ⟨5, 3, #[0xdf, 0x07, 0x98], by decide, by decide, by decide⟩
    let o : Options := ⟨.eight, .eager, true, .parallel ⟨[2, 0]⟩⟩
    r.width < wordLimit ∧ r.height < wordLimit ∧
      ∃ s, r.labelSource o = .ok s ∧ s.runCount < runLimit ∧ ∃ l bs n table,
        r.labelChecked o = .ok l ∧ r.label o = .ok l ∧
        r.componentsChecked o = .ok bs ∧ r.components o = .ok bs ∧ ResolvesRuns o s n table l := by
  intro r o
  have hw : r.width < wordLimit := by decide
  have hh : r.height < wordLimit := by decide
  obtain ⟨s, hs, hsw, hsh, hfew⟩ := (labeling_in_words hw hh o).2.2 (by decide) (by decide)
  have hruns : s.runCount < runLimit := by
    have hlen : s.runCount ≤ s.points.length := List.countP_le_length
    rw [points, List.length_map, List.length_range, hsw, hsh] at hlen
    exact hlen.trans_lt (by decide)
  exact ⟨hw, hh, s, hs, hruns, hfew hruns⟩

end Bitplane.Raster
