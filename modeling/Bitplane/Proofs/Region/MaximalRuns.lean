import Mathlib.Data.Set.Card
import Bitplane.Proofs.Region.CheckedRows
import Bitplane.Region.LabelingLoops

/-! # Maximal runs

A *run* is a stretch of a row all of whose pixels are set, and which cannot be made longer at either
end. Numbering counts runs by their first pixels; here they are counted as the stretches they are.

* `exists_run`, `eq_of_place_eq`: at each place where a run starts there is one run, and only one.
* `ncard_runsBelow`: so the runs that start below a place are as many as the places where runs
  start.
* `labelOf_eq_iff`: in a numbered grid set pixels have one label exactly if they lie in one row and
  everything between them is set.
* `runs_numbered_in_place`: the runs of a grid that is held are numbered, or the grid is
  left alone. -/

namespace Bitplane

open Region

variable {g n : LabelGrid} {s : Strategy} {i j k x x' y y' : Nat}

/-- A stretch of a row: its first column, and the column behind its last. -/
structure Stretch where
  row : Nat
  start : Nat
  stop : Nat
  deriving DecidableEq

namespace LabelGrid

/-- The pixel is set: its label is not background. -/
def SetAt (g : LabelGrid) (x y : Nat) : Prop := ∃ l ≠ 0, g.get? x y = some l

/-- **The stretch is a maximal horizontal run** of set pixels. -/
structure IsRun (g : LabelGrid) (t : Stretch) : Prop where
  start_lt : t.start < t.stop
  setAt : ∀ x, t.start ≤ x → x < t.stop → g.SetAt x t.row
  left : t.start = 0 ∨ ¬ g.SetAt (t.start - 1) t.row
  right : ¬ g.SetAt t.stop t.row

/-- All runs of a grid. -/
def runs (g : LabelGrid) : Set Stretch := {t | g.IsRun t}

/-- The runs whose first pixel is at `(x, y)`, or before it in raster order. -/
def runsUpTo (g : LabelGrid) (x y : Nat) : Set Stretch :=
  {t | g.IsRun t ∧ (t.row < y ∨ t.row = y ∧ t.start ≤ x)}

/-! ## Places and points -/

theorem get?_labelOf (hx : x < g.width) (hy : y < g.height) :
    g.get? x y = some (g.labelOf (g.width * y + x)) := by
  rw [get?_eq hx hy, row_getElem? hx hy]

theorem setAt_iff (hx : x < g.width) (hy : y < g.height) :
    g.SetAt x y ↔ g.labelOf (g.width * y + x) ≠ 0 := by
  unfold SetAt
  rw [get?_labelOf hx hy]
  simp

theorem not_setAt_iff (hx : x < g.width) (hy : y < g.height) :
    ¬ g.SetAt x y ↔ g.labelOf (g.width * y + x) = 0 := by rw [setAt_iff hx hy, not_not]

theorem SetAt.inside (h : g.SetAt x y) : x < g.width ∧ y < g.height := by
  obtain ⟨l, -, hl⟩ := h
  exact get?_isSome_iff.mp (by rw [hl]; rfl)

theorem place_lt_place (hx : x < g.width) (hy : y < y') :
    g.width * y + x < g.width * y' + x' := by
  have h := Nat.mul_le_mul_left g.width (Nat.succ_le_of_lt hy)
  rw [Nat.succ_eq_add_one, Nat.mul_succ] at h
  omega

theorem place_le_place_iff (hx : x < g.width) (hx' : x' < g.width) :
    g.width * y + x ≤ g.width * y' + x' ↔ y < y' ∨ y = y' ∧ x ≤ x' := by
  rcases Nat.lt_trichotomy y y' with h | rfl | h
  · have : g.width * y + x < g.width * y' + x' := place_lt_place hx h
    omega
  · omega
  · have : g.width * y' + x' < g.width * y + x := place_lt_place hx' h
    omega

theorem place_eq_place_iff (hx : x < g.width) (hx' : x' < g.width) :
    g.width * y + x = g.width * y' + x' ↔ y = y' ∧ x = x' := by
  have h1 : g.width * y + x ≤ g.width * y' + x' ↔ _ := place_le_place_iff hx hx'
  have h2 : g.width * y' + x' ≤ g.width * y + x ↔ _ := place_le_place_iff hx' hx
  omega

/-! ## Runs and the places where they start -/

/-- The place of the first pixel of a stretch. -/
def placeOfStart (g : LabelGrid) (t : Stretch) : Nat := g.width * t.row + t.start

theorem IsRun.inside {t : Stretch} (h : g.IsRun t) : t.start < g.width ∧ t.row < g.height :=
  (h.setAt t.start (le_refl _) h.start_lt).inside

theorem runStartsAt_iff_setAt (hx : x < g.width) (hy : y < g.height) :
    g.RunStartsAt (g.width * y + x) ↔ g.SetAt x y ∧ (x = 0 ∨ ¬ g.SetAt (x - 1) y) := by
  rw [runStartsAt_iff hx, setAt_iff hx hy]
  refine and_congr_right fun _ => ?_
  by_cases h0 : x = 0
  · rw [or_iff_left_of_imp fun _ => h0, or_iff_left_of_imp fun _ => h0]
  · rw [not_setAt_iff (by omega) hy, Nat.add_sub_assoc (by omega)]

theorem IsRun.runStartsAt {t : Stretch} (h : g.IsRun t) : g.RunStartsAt (g.placeOfStart t) :=
  (runStartsAt_iff_setAt h.inside.1 h.inside.2).mpr ⟨h.setAt _ (le_refl _) h.start_lt, h.left⟩

theorem IsRun.eq_of_place_eq {t u : Stretch} (h : g.IsRun t) (hu : g.IsRun u)
    (heq : g.placeOfStart t = g.placeOfStart u) : t = u := by
  obtain ⟨hrow, hstart⟩ := (place_eq_place_iff h.inside.1 hu.inside.1).mp heq
  have hstop : t.stop = u.stop := by
    rcases Nat.lt_trichotomy t.stop u.stop with hlt | heq | hlt
    · have := h.start_lt
      exact absurd (hrow ▸ hu.setAt t.stop (by omega) hlt) h.right
    · exact heq
    · have := hu.start_lt
      exact absurd (hrow ▸ h.setAt u.stop (by omega) hlt) hu.right
  obtain ⟨row, start, stop⟩ := t
  obtain ⟨row', start', stop'⟩ := u
  simp only at hrow hstart hstop
  rw [hrow, hstart, hstop]

theorem exists_run (hx : x < g.width) (hy : y < g.height)
    (h : g.RunStartsAt (g.width * y + x)) : ∃ t, g.IsRun t ∧ t.row = y ∧ t.start = x := by
  classical
  obtain ⟨hset, hleft⟩ := (runStartsAt_iff_setAt hx hy).mp h
  -- the run goes on to the first column that is not set
  have hend : ∃ stop, x < stop ∧ ¬ g.SetAt stop y :=
    ⟨g.width, hx, fun hw => absurd hw.inside.1 (lt_irrefl _)⟩
  obtain ⟨hlt, hright⟩ := Nat.find_spec hend
  refine ⟨⟨y, x, Nat.find hend⟩, ⟨hlt, fun x' h1 h2 => ?_, hleft, hright⟩, rfl, rfl⟩
  rcases Nat.eq_or_lt_of_le h1 with rfl | h1
  · exact hset
  · have := Nat.find_min hend h2
    rw [not_and, not_not] at this
    exact this h1

/-- The runs that start below a place. -/
def runsBelow (g : LabelGrid) (k : Nat) : Set Stretch := {t | g.IsRun t ∧ g.placeOfStart t < k}

/-- **The runs that start below a place are as many as the places where they start.** -/
theorem ncard_runsBelow (hk : k ≤ g.width * g.height) : (g.runsBelow k).ncard = g.runsBefore k := by
  have hinj : Set.InjOn g.placeOfStart (g.runsBelow k) :=
    fun t ht u hu heq => ht.1.eq_of_place_eq hu.1 heq
  have himage : g.placeOfStart '' g.runsBelow k =
      ((Finset.range k).filter g.RunStartsAt : Finset Nat) := by
    ext i
    rw [Finset.coe_filter]
    simp only [Set.mem_image, Set.mem_ofPred_eq, Finset.mem_range]
    constructor
    · rintro ⟨t, ⟨ht, hlt⟩, rfl⟩
      exact ⟨hlt, ht.runStartsAt⟩
    · rintro ⟨hi, hs⟩
      have hx : i % g.width < g.width := Nat.mod_lt i g.width_pos
      have hy : i / g.width < g.height := Nat.div_lt_of_lt_mul (by omega)
      have hdiv := Nat.div_add_mod i g.width
      obtain ⟨t, ht, hrow, hstart⟩ := exists_run hx hy (hdiv.symm ▸ hs)
      have hplace : g.placeOfStart t = i := by rw [placeOfStart, hrow, hstart, hdiv]
      exact ⟨t, ⟨ht, hplace.trans_lt hi⟩, hplace⟩
  rw [← hinj.ncard_image, himage, Set.ncard_coe_finset, runsBefore,
    Nat.count_eq_card_filter_range]

theorem ncard_runsUpTo (hx : x < g.width) (hy : y < g.height) :
    (g.runsUpTo x y).ncard = g.runsBefore (g.width * y + x + 1) := by
  rw [← ncard_runsBelow (place_lt hx hy)]
  congr 1
  ext t
  refine and_congr_right fun ht => ?_
  unfold placeOfStart
  rw [Nat.lt_succ_iff, place_le_place_iff ht.inside.1 hx]

theorem ncard_runs (g : LabelGrid) : g.runs.ncard = g.runCount := by
  rw [runCount, ← ncard_runsBelow (le_refl _)]
  congr 1
  ext t
  refine ⟨fun ht => ⟨ht, place_lt ht.inside.1 ht.inside.2⟩, fun ht => ht.1⟩

/-- A grid of one column, all set. -/
def column (h : Nat) (hh : 0 < h) : LabelGrid :=
  ⟨1, h, Array.replicate h 1, Nat.one_pos, hh, by rw [Array.size_replicate, Nat.one_mul]⟩

theorem ncard_runs_column (h : Nat) (hh : 0 < h) : (column h hh).runs.ncard = h := by
  rw [ncard_runs]
  show Nat.count (column h hh).RunStartsAt (1 * h) = h
  rw [Nat.one_mul, Nat.count_iff_forall]
  intro i hi
  refine ⟨?_, .inl (Nat.mod_one i)⟩
  show (Array.replicate h 1)[i]?.getD 0 ≠ 0
  rw [Array.getElem?_replicate, if_pos hi]
  decide

end LabelGrid

open LabelGrid

namespace Region

/-! ## Labels of runs -/

/-- **The runs of `g` are labelled in `n`**: background stays, and a set pixel has the number of
runs that start up to it, so that set pixels have one label exactly if they are in one run. -/
structure RunsLabeled (g n : LabelGrid) : Prop where
  width_eq : n.width = g.width
  height_eq : n.height = g.height
  get?_eq : ∀ x < g.width, ∀ y < g.height,
    n.get? x y = some (if g.get? x y = some 0 then 0 else (g.runsUpTo x y).ncard)
  get?_eq_zero_iff : ∀ x y, n.get? x y = some 0 ↔ g.get? x y = some 0
  get?_eq_iff : ∀ x y x' y', g.SetAt x y → g.SetAt x' y' →
    (n.get? x y = n.get? x' y' ↔ y = y' ∧ ∀ k, min x x' ≤ k → k ≤ max x x' → g.SetAt k y)

namespace RunsNumbered

variable (h : RunsNumbered g n)
include h

theorem get?_eq_labelOf (hx : x < g.width) (hy : y < g.height) :
    n.get? x y = some (n.labelOf (g.width * y + x)) := by
  rw [get?_labelOf (h.width_eq ▸ hx) (h.height_eq ▸ hy), h.width_eq]

theorem labelOf_eq_of_setAt (hy : y < g.height) (hxx' : x ≤ x')
    (hset : ∀ k, x ≤ k → k ≤ x' → g.SetAt k y) :
    n.labelOf (g.width * y + x') = n.labelOf (g.width * y + x) := by
  induction x', hxx' using Nat.le_induction with
  | base => rfl
  | succ x' hle ih =>
    have hlast := hset (x' + 1) (by omega) (le_refl _)
    have hprev := hset x' hle (by omega)
    have hx' := hlast.inside.1
    rw [setAt_iff hx' hy] at hlast
    rw [setAt_iff (by omega) hy] at hprev
    have hcol : (g.width * y + x' + 1) % g.width ≠ 0 := by
      rw [Nat.add_assoc, Nat.mul_add_mod, Nat.mod_eq_of_lt hx']
      omega
    have hnext := h.succ_eq (i := g.width * y + x') (place_lt (x := x' + 1) hx' hy) hcol hprev hlast
    exact hnext.trans (ih fun k h1 h2 => hset k h1 (by omega))

/-- A label that occurs again has gone on along its row all the way. -/
theorem setAt_of_labelOf_eq (hx : x < g.width) (hle : g.width * y + x ≤ g.width * y' + x')
    (hset : g.SetAt x' y')
    (heq : n.labelOf (g.width * y + x) = n.labelOf (g.width * y' + x')) :
    y = y' ∧ ∀ k, x ≤ k → k ≤ x' → g.SetAt k y' := by
  obtain ⟨hx', hy'⟩ := hset.inside
  induction x' with
  | zero =>
    rcases Nat.eq_or_lt_of_le hle with hplace | hlt
    · obtain ⟨rfl, rfl⟩ := (place_eq_place_iff hx hx').mp hplace
      exact ⟨rfl, fun k _ hk => Nat.le_zero.mp hk ▸ hset⟩
    · have hcol := (h.prev_of_eq hlt (place_lt hx' hy') ((setAt_iff hx' hy').mp hset) heq).1
      rw [Nat.add_zero, Nat.mul_mod_right] at hcol
      exact absurd rfl hcol
  | succ x' ih =>
    rcases Nat.eq_or_lt_of_le hle with hplace | hlt
    · obtain ⟨rfl, rfl⟩ := (place_eq_place_iff hx hx').mp hplace
      exact ⟨rfl, fun k hk hk' => Nat.le_antisymm hk' hk ▸ hset⟩
    · obtain ⟨-, hprev, hlab⟩ :=
        h.prev_of_eq hlt (place_lt hx' hy') ((setAt_iff hx' hy').mp hset) heq
      rw [← Nat.add_assoc, Nat.add_sub_cancel] at hprev hlab
      obtain ⟨hrow, hbetween⟩ := ih (by omega) ((setAt_iff (by omega) hy').mpr hprev) hlab (by omega)
      refine ⟨hrow, fun k hk hk' => ?_⟩
      rcases Nat.eq_or_lt_of_le hk' with rfl | hk'
      · exact hset
      · exact hbetween k hk (Nat.lt_succ_iff.mp hk')

/-- **Set pixels have one label exactly if they lie in one row and everything between them
is set.** -/
theorem labelOf_eq_iff (hset : g.SetAt x y) (hset' : g.SetAt x' y') :
    n.labelOf (g.width * y + x) = n.labelOf (g.width * y' + x') ↔
      y = y' ∧ ∀ k, min x x' ≤ k → k ≤ max x x' → g.SetAt k y := by
  have key : ∀ {x y x' y'}, g.SetAt x y → g.SetAt x' y' →
      g.width * y + x ≤ g.width * y' + x' →
      (n.labelOf (g.width * y + x) = n.labelOf (g.width * y' + x') ↔
        y = y' ∧ ∀ k, min x x' ≤ k → k ≤ max x x' → g.SetAt k y) := by
    intro x y x' y' hset hset' hle
    have hx := hset.inside.1
    constructor
    · intro heq
      obtain ⟨rfl, hbetween⟩ := h.setAt_of_labelOf_eq hx hle hset' heq
      rw [Nat.min_eq_left (by omega), Nat.max_eq_right (by omega)]
      exact ⟨rfl, hbetween⟩
    · rintro ⟨rfl, hbetween⟩
      rw [Nat.min_eq_left (by omega), Nat.max_eq_right (by omega)] at hbetween
      exact (h.labelOf_eq_of_setAt hset.inside.2 (by omega) hbetween).symm
  rcases Nat.le_total (g.width * y + x) (g.width * y' + x') with hle | hle
  · exact key hset hset' hle
  · rw [eq_comm, key hset' hset hle, min_comm, max_comm, eq_comm (a := y')]
    exact and_congr_right fun hy => by rw [hy]

theorem runsLabeled : RunsLabeled g n where
  width_eq := h.width_eq
  height_eq := h.height_eq
  get?_eq x hx y hy := by
    rw [h.get?_eq_labelOf hx hy, get?_labelOf hx hy, h.labelOf_eq _ (place_lt hx hy),
      ncard_runsUpTo hx hy]
    simp only [Option.some.injEq]
  get?_eq_zero_iff x y := by
    by_cases hin : x < g.width ∧ y < g.height
    · rw [h.get?_eq_labelOf hin.1 hin.2, get?_labelOf hin.1 hin.2, Option.some.injEq,
        Option.some.injEq, h.labelOf_eq_zero_iff (place_lt hin.1 hin.2)]
    · rw [get?_of_not_inside hin, get?_of_not_inside (by rwa [h.width_eq, h.height_eq])]
  get?_eq_iff x y x' y' hset hset' := by
    rw [h.get?_eq_labelOf hset.inside.1 hset.inside.2,
      h.get?_eq_labelOf hset'.inside.1 hset'.inside.2, Option.some.injEq]
    exact h.labelOf_eq_iff hset hset'

end RunsNumbered

/-! ## The grid that is held -/

/-- **The grid that is held is written once the runs are counted**, and not at all if they are too
many. -/
theorem Held.runOn_numberRuns (s : Strategy) (g : LabelGrid) :
    (Held.numberRuns s).runOn g =
      match Checked.numberRuns s g with
      | .ok (n, runs) => (.ok runs, n)
      | .error e => (.error e, g) := by
  unfold Held.numberRuns Checked.numberRuns
  rw [Bitplane.Held.runOn_get_bind, Bitplane.Held.runOn_aside_bind]
  cases Rows.tryGather s g.width Checked.countRuns g.labels with
  | error e => rfl
  | ok counts =>
    simp only [ok_bind, Bitplane.Held.runOn_aside_bind]
    cases counts.foldlM Checked.addCount (#[], 0) with
    | error e => rfl
    | ok sums =>
      obtain ⟨offsets, runs⟩ := sums
      simp only [ok_bind]
      by_cases hruns : runLimit ≤ runs
      · rw [if_pos hruns, if_pos hruns]
        rfl
      · rw [if_neg hruns, if_neg hruns, Bitplane.Held.runOn_aside_bind]
        cases Checked.updateLabels s (Checked.numberRowAt offsets) g <;> rfl

variable {g : LabelGrid}

/-- **The runs of a grid that is held are labelled in it, and counted**, whichever strategy does it;
or if there are too many the grid is refused, and stays as it was. -/
theorem runs_numbered_in_place (hw : g.width < wordLimit) (hh : g.height < wordLimit)
    (s : Strategy) :
    (g.runs.ncard < runLimit → ∃ n, (Held.numberRuns s).runOn g = (.ok g.runs.ncard, n) ∧
      numberRuns s g = .ok (n, g.runs.ncard) ∧ RunsLabeled g n) ∧
    (runLimit ≤ g.runs.ncard →
      (Held.numberRuns s).runOn g = (.error (.refused (.imageTooLarge g.width g.height)), g)) := by
  rw [Held.runOn_numberRuns, Checked.numberRuns_eq hw hh s, ncard_runs]
  constructor
  · intro hruns
    obtain ⟨n, hn, hnum⟩ := numberRuns_ok s hruns
    rw [hn]
    exact ⟨n, rfl, rfl, hnum.runsLabeled⟩
  · intro hruns
    rw [numberRuns_error s hruns]
    rfl

/-- A run that ends its row and one that starts the next, their pixels in sequence, have labels of
their own; and of all columns the tallest is refused. -/
theorem runs_numbered_in_place_row_ends :
    let g : LabelGrid := ⟨3, 2, #[0, 1, 1, 1, 0, 1], by decide, by decide, rfl⟩
    let n : LabelGrid := ⟨3, 2, #[0, 1, 1, 2, 0, 3], by decide, by decide, rfl⟩
    let tall := column runLimit (by decide)
    g.width < wordLimit ∧ g.height < wordLimit ∧ g.runs.ncard = 3 ∧ g.runs.ncard < runLimit ∧
      (Held.numberRuns .standard).runOn g = (.ok 3, n) ∧ RunsLabeled g n ∧
      tall.width < wordLimit ∧ tall.height < wordLimit ∧ runLimit ≤ tall.runs.ncard ∧
      (Held.numberRuns .standard).runOn tall =
        (.error (.refused (.imageTooLarge 1 runLimit)), tall) := by
  intro g n tall
  have hw : g.width < wordLimit := by decide
  have hh : g.height < wordLimit := by decide
  have hruns : g.runs.ncard = 3 := by
    rw [ncard_runs]
    decide
  have hlt : g.runs.ncard < runLimit := by
    rw [hruns]
    decide
  obtain ⟨m, hm, hnum, hlab⟩ := (runs_numbered_in_place hw hh .standard).1 hlt
  have hn : numberRuns .standard g = .ok (n, 3) := by decide
  rw [hnum] at hn
  obtain ⟨rfl, -⟩ := Prod.mk.inj (Except.ok.inj hn)
  rw [hruns] at hm
  have hw' : tall.width < wordLimit := by
    show 1 < wordLimit
    decide
  have hh' : tall.height < wordLimit := by
    show runLimit < wordLimit
    decide
  have hge : runLimit ≤ tall.runs.ncard := (ncard_runs_column ..).ge
  exact ⟨hw, hh, hruns, hlt, hm, hlab, hw', hh', hge,
    (runs_numbered_in_place hw' hh' .standard).2 hge⟩

end Region

end Bitplane
