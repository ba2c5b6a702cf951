import Bitplane.Proofs.Region.OpeningOrder
import Bitplane.Proofs.Region.ExtractionPasses
import Bitplane.Region.LabelingPasses

/-! # No step of the tables is out of range

On reports that mention `1, …, n` in turn, `n + 1` a word, all that a forest or a dense numbering
asks for on the way is there, and both resolve as they do without asking.

* `find_eq`, `join_eq`, `root_eq`, `numberForest_eq`: the forest, whose labels are all in it.
* `closeGap_eq`, `merge_eq`, `joinDense_eq`: the dense numbering, whose labels in use are all in it,
  whether or not its scans are shared out.
* `foldlM_take_eq`: a whole history of reports, taken in by both; `foldlM_takeDense_of_free`: a free
  history, taken in by the dense numbering.
* `resolve_eq`: the tables they end with. -/

namespace Bitplane.Region.Checked

variable {f : Forest} {d : DenseNumbering} {e : Report} {es : List Report} {slots : Array Nat}
  {k keep fold l m m' n o p steps : Nat}

theorem ensure_of {p : Prop} [Decidable p] (h : p) : ensure p = .ok () := if_pos h

theorem require_fit {limit a : Nat} (h : a < limit) : require (Word.fit? limit a) = .ok a := by
  rw [Word.fit?, if_pos h, require]

theorem require_getElem {α : Type} {a : Array α} {v : α} {i : Nat} (h : a[i]? = some v) :
    require a[i]? = .ok v := by
  rw [h]
  rfl

/-! ## The forest -/

/-- **The walk to the root passes labels of the forest only.** -/
theorem find_eq (h : l < f.size) : find f l = .ok (f.find l) := by
  induction l using Nat.strongRecOn generalizing f with
  | ind l ih =>
    have hp := Forest.parent_eq_up h
    have hup := f.up_le l
    unfold find Forest.find
    split
    next hnone =>
      rw [hp] at hnone
      cases hnone
    next p hsome =>
      rw [hp, Option.some.injEq] at hsome
      subst hsome
      by_cases hroot : f.up l = l
      · rw [if_pos hroot, if_pos hroot]
      · rw [if_neg hroot, if_neg hroot]
        have hg := Forest.parent_eq_up (l := f.up l) (hup.trans_lt h)
        split
        next hnone =>
          rw [hg] at hnone
          cases hnone
        next g hsome =>
          rw [hg, Option.some.injEq] at hsome
          subst hsome
          have hup2 := f.up_le (f.up l)
          exact ih _ (by omega) (by rw [Forest.size_hang]; omega)

theorem join_eq (hl : l < f.size) (ho : o < f.size) : join f l o = .ok (f.join l o) := by
  unfold join Forest.join
  have hsize := f.size_find l
  have ha := f.find_snd l
  rw [find_eq hl, ok_bind]
  rcases hfl : f.find l with ⟨f₁, a⟩
  rw [hfl] at hsize ha
  have hsize' := f₁.size_find o
  have hb := f₁.find_snd o
  have hroot := Forest.root_find f₁ o (f₁.root o)
  simp only at hsize ha ⊢
  rw [find_eq (by omega), ok_bind]
  rcases hfo : f₁.find o with ⟨f₂, b⟩
  rw [hfo] at hsize' hb hroot
  have hle := f.root_le l
  have hle' := f₁.root_le o
  simp only at hsize' hb hroot ⊢
  split
  next hab =>
    -- the roots are one, and a root is its own parent
    subst hab
    rw [Forest.root_root, ← hb] at hroot
    unfold Forest.link
    rw [dif_pos (le_refl a), Forest.hang_self (Forest.root_eq_self_iff.mp hroot)]
    rfl
  next hab =>
    rw [ensure_of (by omega), ok_bind]
    rfl

/-- **A walk from a label has fewer steps than the forest has labels.** -/
theorem root_eq (h : steps + l < f.size) : root f steps l = .ok (f.root l) := by
  induction l using Nat.strongRecOn generalizing steps with
  | ind l ih =>
    have hp := Forest.parent_eq_up (f := f) (l := l) (by omega)
    have hup := f.up_le l
    unfold root
    split
    next hnone =>
      rw [hp] at hnone
      cases hnone
    next p hsome =>
      rw [hp, Option.some.injEq] at hsome
      subst hsome
      by_cases hroot : f.up l = l
      · rw [if_pos hroot, Forest.root_of_up_eq hroot]
      · rw [if_neg hroot, if_pos (by omega), ih _ (by omega) (by omega), Forest.root_up]

theorem numberLabel_eq {roots : Array Nat} (hr : roots[l]? = some (f.root l))
    (hn : l + 1 < wordLimit) :
    numberLabel roots ((List.range l).foldl f.number (#[], 0)) l =
      .ok ((List.range (l + 1)).foldl f.number (#[], 0)) := by
  have hcount : Nat.count f.IsHead l ≤ l := Nat.count_le _
  rw [List.range_succ, List.foldl_concat, f.resolved_upTo]
  unfold numberLabel Forest.number
  simp only
  by_cases h0 : l = 0
  · rw [if_pos h0, if_pos h0]
  · rw [if_neg h0, if_neg h0, require_getElem hr, ok_bind]
    by_cases hl : f.root l = l
    · rw [if_pos hl, if_pos hl, require_add (by omega)]
      rfl
    · have hlt : f.root l < l := lt_of_le_of_ne (f.root_le l) hl
      have hget : ((Array.range l).map f.numberOf)[f.root l]? = some (f.numberOf (f.root l)) := by
        rw [Array.getElem?_map, Array.getElem?_range, if_pos hlt, Option.map_some]
      rw [if_neg hl, if_neg hl, ensure_of hlt, ok_bind, require_getElem hget, hget]
      rfl

theorem tryGather_rootOf (s : Strategy) (f : Forest) :
    Rows.tryGather s 1 (rootOf f) (Array.range f.size) = .ok ((List.range f.size).map f.root) := by
  have hrow : ∀ {l}, l < f.size → Rows.rowOf 1 (Array.range f.size) l = [l] := fun hl =>
    Rows.rowOf_one (by rw [Array.getElem?_range, if_pos hl])
  have hroot : ∀ l < Rows.fullRows 1 (Array.range f.size),
      rootOf f (Rows.rowOf 1 (Array.range f.size) l) =
        .ok (f.root ((Rows.rowOf 1 (Array.range f.size) l).headD 0)) := fun l hl => by
    rw [Rows.fullRows_one, Array.size_range] at hl
    rw [hrow hl]
    exact root_eq (by omega)
  rw [Rows.tryGather_eq (g := fun row => f.root (row.headD 0)) hroot, Rows.gather_eq,
    Rows.fullRows_one, Array.size_range]
  refine congrArg Except.ok (List.map_congr_left fun l hl => ?_)
  rw [hrow (List.mem_range.mp hl)]
  rfl

theorem numberForest_eq (s : Strategy) (h : f.size < wordLimit) :
    numberForest s f = .ok f.resolved := by
  have hroots := tryGather_rootOf s f
  have key : ∀ k ≤ f.size, (List.range k).foldlM
      (numberLabel ((List.range f.size).map f.root).toArray) (#[], 0) =
        .ok ((List.range k).foldl f.number (#[], 0)) := by
    intro k hk
    induction k with
    | zero => rfl
    | succ k ih =>
      have hr : ((List.range f.size).map f.root).toArray[k]? = some (f.root k) := by
        rw [List.getElem?_toArray, List.getElem?_map, List.getElem?_range (by omega)]
        rfl
      rw [List.range_succ, List.foldlM_append, ih (by omega), ok_bind, List.foldlM_cons,
        numberLabel_eq hr (by omega), ← List.range_succ]
      rfl
  unfold numberForest Forest.resolved
  rw [require_fit h, ok_bind, hroots, ok_bind, List.length_map, List.length_range]
  exact key _ (le_refl _)

/-! ## The dense numbering -/

theorem slots_eq_numberOf (h : l < d.size) : d.slots[l]? = some (d.numberOf l) := by
  unfold DenseNumbering.numberOf
  rw [Array.getElem?_eq_getElem h]
  rfl

theorem start_eq (hl : l < d.size) (h0 : d.numberOf l = 0) (hc : d.count + 1 < wordLimit) :
    start d l = .ok (d.start l) := by
  unfold start
  rw [require_getElem (slots_eq_numberOf hl), ok_bind, ensure_of h0, ok_bind, require_add hc]
  rfl

theorem shifted_eq : shifted keep fold n = .ok (DenseNumbering.shifted keep fold n) := by
  unfold shifted DenseNumbering.shifted
  split
  next => rfl
  next =>
    split
    next h => exact require_sub (by omega)
    next => rfl

/-- **The slots are scanned alike** by all strategies, shared out or not. -/
theorem closeGap_eq (s : Strategy) (keep fold : Nat) (slots : Array Nat) :
    closeGap s keep fold slots = .ok (slots.map (DenseNumbering.shifted keep fold)) := by
  unfold closeGap
  rw [Rows.tryUpdate_eq (g := fun _ slot => slot.map (DenseNumbering.shifted keep fold)),
    Rows.update_one]
  · exact fun _ _ slot hslot => by rw [List.length_map, hslot]
  · exact fun _ _ => mapM_ok fun _ _ => shifted_eq

theorem overlay_map_extract (h : k < slots.size) :
    Rows.overlay slots 1
        ((slots.extract 1 (k + 1)).map (DenseNumbering.shifted keep fold)).toList =
      DenseNumbering.closeGap keep fold slots k := by
  have hsize : (slots.extract 1 (k + 1)).size = k := by
    rw [Array.size_extract]
    omega
  refine Array.ext_getElem? fun l => ?_
  rw [Rows.getElem?_overlay, DenseNumbering.getElem?_closeGap, Array.length_toList, Array.size_map,
    hsize]
  by_cases hl : l ≠ 0 ∧ l ≤ k
  · rw [if_pos (by omega), if_pos hl, Array.getElem?_toList, Array.getElem?_map,
      Array.getElem?_extract, if_pos (by omega), show 1 + (l - 1) = l by omega]
  · rw [if_neg (by omega), if_neg hl]

theorem merge_eq (s : Strategy) (hu : d.used < d.size) (hc : 1 ≤ d.count) :
    merge s d k l = .ok (d.merge k l) := by
  have hu' : d.used < d.slots.size := hu
  have hslice : slice? d.slots 1 (d.used + 1) = some (d.slots.extract 1 (d.used + 1)).toList :=
    if_pos ⟨by omega, by omega⟩
  unfold merge
  rw [hslice, require_some, ok_bind, Array.toArray_toList, closeGap_eq, ok_bind, require_sub hc,
    ok_bind, overlay_map_extract hu']
  rfl

theorem joinDense_eq (s : Strategy) (hl : l < d.size) (ho : o < d.size) (hu : d.used < d.size)
    (h0 : d.numberOf o ≠ 0) (hc : 1 ≤ d.count) : joinDense s d l o = .ok (d.join l o) := by
  unfold joinDense DenseNumbering.join
  rw [require_getElem (slots_eq_numberOf ho), ok_bind, ensure_of h0, ok_bind,
    require_getElem (slots_eq_numberOf hl), ok_bind]
  simp only
  split
  next => rfl
  next =>
    split
    next => rfl
    next => exact merge_eq s hu hc

/-! ## Reports in turn -/

section

variable (h : Agrees m f d) (he : e.mention m = some m') (hs : m' < f.size)
include h he hs

/-- A label that opens is a set of its own, and labels that are joined are in the forest. -/
theorem takeForest_eq : takeForest f e = .ok (f.take e) := by
  rcases Report.mention_cases he with ⟨rfl, rfl⟩ | ⟨o, rfl, -, ho, rfl⟩ |
    ⟨l, o, rfl, -, hl, -, ho, rfl⟩
  · have hup := Forest.root_eq_self_iff.mp (h.root_eq (m + 1) (by omega))
    unfold takeForest
    simp only
    rw [require_getElem (Forest.parent_eq_up hs), ok_bind, ensure_of hup]
    rfl
  · exact join_eq hs (by omega)
  · exact join_eq (by omega) (by omega)

/-- A label that opens has no number yet, a label that is joined to has one, and no number is
greater than the number of labels. -/
theorem takeDense_eq (s : Strategy) (hw : f.size < wordLimit) :
    takeDense s d e = .ok (d.take e) := by
  have hsize := h.size_eq
  have hused := h.used_eq
  have hcount : d.count ≤ m := h.count_eq.trans_le (f.count_isHead_le m)
  rcases Report.mention_cases he with ⟨rfl, rfl⟩ | ⟨o, rfl, ho0, ho, rfl⟩ |
    ⟨l, o, rfl, -, hl, ho0, ho, rfl⟩
  · exact start_eq (by omega) (h.numberOf_eq_zero _ (by omega)) (by omega)
  all_goals
    have hne := h.numberOf_ne_zero ho0 ho
    have hle := h.numberOf_le ho
    exact joinDense_eq s (by omega) (by omega) (by omega) hne (by omega)

end

/-- **A history of reports is taken in by both** without a step out of range. -/
theorem foldlM_take_eq (s : Strategy) (h : Agrees m f d) (he : es.foldlM Report.mention m = some n)
    (hs : n < f.size) (hw : f.size < wordLimit) :
    es.foldlM takeForest f = .ok (es.foldl Forest.take f) ∧
      es.foldlM (takeDense s) d = .ok (es.foldl DenseNumbering.take d) := by
  induction es generalizing m f d with
  | nil => exact ⟨rfl, rfl⟩
  | cons e es ih =>
    rw [List.foldlM_cons] at he
    obtain ⟨m', he1, he2⟩ := Option.bind_eq_some_iff.mp he
    have hs' := (le_of_foldlM_mention he2).1.trans_lt hs
    have hsize := f.size_take e
    rw [List.foldlM_cons, List.foldlM_cons, takeForest_eq h he1 hs', takeDense_eq h he1 hs' s hw,
      ok_bind, ok_bind]
    exact ih (h.take he1 hs') he2 (hsize.symm ▸ hs) (hsize.symm ▸ hw)

/-- **A free history is taken in by a dense numbering** without a step out of range, if its labels
are words. -/
theorem foldlM_takeDense_of_free (s : Strategy) (h : FreeHistory n es) (hw : n < wordLimit) :
    es.foldlM (takeDense s) (.fresh n) = .ok (es.foldl DenseNumbering.take (.fresh n)) := by
  induction h with
  | nil => rfl
  | @concat es e h he ih =>
    have hused := h.used_le
    have hgrouped := h.grouped
    rw [List.foldlM_append, ih, ok_bind, List.foldl_concat, List.foldlM_cons]
    generalize es.foldl DenseNumbering.take (.fresh n) = d at hused hgrouped ⊢
    have hsize := hgrouped.size_eq
    have htaken : (d.take e).count ≤ n := (hgrouped.take h he).count_le (h.concat he)
    suffices htake : takeDense s d e = .ok (d.take e) by rw [htake]; rfl
    cases e with
    | opens l =>
      obtain ⟨-, hl, hnew⟩ := he
      have hcount : d.count + 1 ≤ n := htaken
      exact start_eq (by omega) ((hgrouped.numberOf_eq_zero_iff l).mpr hnew) (by omega)
    | joins l o =>
      obtain ⟨-, hl, ho⟩ := he
      have ho0 := mt (hgrouped.numberOf_eq_zero_iff o).mp (not_not.mpr ho)
      have hpos := hgrouped.numberOf_le o
      have hon := (h.label_le ho).2
      exact joinDense_eq s (by omega) (by omega) (by omega) ho0 (by omega)

/-- **Both tables resolve in words** what mentions `1, …, n`, if one more than `n` is a word. -/
theorem resolve_eq (s : Strategy) (a : Algorithm) (h : mentioned? es = some n)
    (hw : n + 1 < wordLimit) : resolve s a n es = .ok (a.resolve n es) := by
  have hsize := Forest.size_singletons n
  obtain ⟨hforest, hdense⟩ := foldlM_take_eq s (Agrees.init n) h (by omega) (by omega)
  cases a with
  | deferred =>
    unfold resolve resolveForest
    rw [hforest, ok_bind]
    exact numberForest_eq s (by rw [Forest.size_foldl_take]; omega)
  | eager =>
    unfold resolve resolveDense
    rw [hdense]
    rfl

end Bitplane.Region.Checked
