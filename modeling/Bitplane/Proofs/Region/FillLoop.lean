import Bitplane.Proofs.Region.ExtractionPasses
import Bitplane.Proofs.Region.FloodFill
import Bitplane.Region.FillLoop

/-! # No step of the flood fill is out of range

In a picture of fewer than 2^63 pixels every place that the fill reads or writes is one of the
labels, and no coordinate leaves its word. The queue runs empty, since a point waits once only. So,
unless there are more components than words of 32 bits can count, the loop ends and answers what the
fill does.

* `lookInWords_eq`: a neighbour looked at is a neighbour enqueued, or none.
* `spreadInWords_eq`: the loop over the queue ends.
* `fillFromInWords_eq`, `foldlM_fillFromInWords`: the next pixel, and the pixels up to some place.
* `fillInWords_eq`: the loop over all pixels. -/

namespace Bitplane.Raster

open Region Region.Loop

variable {r : Raster} {c : Connectivity} {p : Point} {acc : Array Nat × List Point}
  {labels : Array Nat} {queue : List Point} {d : Int × Int} {i n : Nat}

theorem require_signed {z : Int} (h : -0x8000000000000000 ≤ z) (h' : z < 0x8000000000000000) :
    require (Word.signed? z) = .ok z := by
  rw [Word.signed?, if_pos ⟨h, h'⟩, require]

/-- A step to a neighbour changes no coordinate by more than one. -/
theorem steps_small : ∀ d ∈ c.steps, -1 ≤ d.1 ∧ d.1 ≤ 1 ∧ -1 ≤ d.2 ∧ d.2 ≤ 1 := by
  cases c <;> decide

theorem size_enqueue (r : Raster) (n : Nat) (acc : Array Nat × List Point) (p : Point) :
    (r.enqueue n acc p).1.size = acc.1.size := by
  unfold enqueue
  split
  split
  · exact Array.size_setIfInBounds ..
  · rfl

theorem size_foldl_enqueue (r : Raster) (n : Nat) (acc : Array Nat × List Point) (ps : List Point) :
    (ps.foldl (r.enqueue n) acc).1.size = acc.1.size := by
  induction ps generalizing acc with
  | nil => rfl
  | cons p ps ih => rw [List.foldl_cons, ih, size_enqueue]

/-- Only pixels of the picture join the queue. -/
theorem inside_foldl_enqueue {ps : List Point} (hq : ∀ p ∈ acc.2, r.Inside p.x p.y) :
    ∀ p ∈ (ps.foldl (r.enqueue n) acc).2, r.Inside p.x p.y := by
  induction ps generalizing acc with
  | nil => exact hq
  | cons p ps ih =>
    refine ih ?_
    unfold enqueue
    split
    split
    next hnew =>
      intro q hmem
      rcases List.mem_append.mp hmem with hmem | hmem
      · exact hq q hmem
      · rw [List.mem_singleton.mp hmem]
        exact inside_of_isSet hnew.2
    next => exact hq

section

variable (hsize : r.width * r.height < 0x8000000000000000)

include hsize

theorem sides_lt : r.width < 0x8000000000000000 ∧ r.height < 0x8000000000000000 :=
  ⟨(Nat.le_mul_of_pos_right _ r.height_pos).trans_lt hsize,
    (Nat.le_mul_of_pos_left _ r.width_pos).trans_lt hsize⟩

theorem lookInWords_eq (hs : acc.1.size = r.width * r.height) (hp : r.Inside p.x p.y)
    (hd : d ∈ c.steps) :
    r.lookInWords (n + 1) p acc d =
      .ok ((p.step? r.width r.height d).elim acc (r.enqueue n acc)) := by
  obtain ⟨hw, hh⟩ := sides_lt hsize
  obtain ⟨hx, hy⟩ := hp
  obtain ⟨hd1, hd2, hd3, hd4⟩ := steps_small d hd
  unfold lookInWords Point.step?
  rw [require_signed (by omega) (by omega), ok_bind, require_signed (by omega) (by omega), ok_bind]
  by_cases hin : 0 ≤ (p.x : Int) + d.1 ∧ (p.x : Int) + d.1 < r.width ∧ 0 ≤ (p.y : Int) + d.2 ∧
      (p.y : Int) + d.2 < r.height
  · obtain ⟨x, hx⟩ := Int.eq_ofNat_of_zero_le hin.1
    obtain ⟨y, hy⟩ := Int.eq_ofNat_of_zero_le hin.2.2.1
    have hq : r.Inside x y := ⟨by omega, by omega⟩
    have hplace : y * r.width + x < r.width * r.height := placeOf_lt (p := ⟨x, y⟩) hq
    have hmul : (y : Int) * r.width = (y * r.width : Nat) := (Int.natCast_mul ..).symm
    have hlt : y * r.width + x < acc.1.size := hs.symm ▸ hplace
    simp only [if_pos hin]
    rw [if_neg (by omega), hx, hy, hmul, require_signed (by omega) (by omega), ok_bind,
      require_signed (by omega) (by omega), ok_bind, ← Int.natCast_add]
    simp only [Int.toNat_natCast]
    rw [Array.getElem?_eq_getElem hlt, require_some, ok_bind]
    simp only [Option.elim_some, enqueue, placeOf, Array.getElem?_eq_getElem hlt, Option.some.injEq]
    split <;> rfl
  · simp only [if_neg hin]
    rw [if_pos (by omega)]
    rfl

theorem foldlM_lookInWords {ds : List (Int × Int)} (hds : ∀ d ∈ ds, d ∈ c.steps)
    (hs : acc.1.size = r.width * r.height) (hp : r.Inside p.x p.y) :
    ds.foldlM (r.lookInWords (n + 1) p) acc =
      .ok ((ds.filterMap (p.step? r.width r.height)).foldl (r.enqueue n) acc) := by
  induction ds generalizing acc with
  | nil => rfl
  | cons d ds ih =>
    have hds' := fun d h => hds d (List.mem_cons_of_mem _ h)
    rw [List.foldlM_cons, lookInWords_eq hsize hs hp (hds d List.mem_cons_self), ok_bind,
      List.filterMap_cons]
    cases p.step? r.width r.height d with
    | none => exact ih hds' hs
    | some q => exact ih hds' (by rw [Option.elim_some, size_enqueue, hs])

/-- **The loop over the queue ends**, with what the fill writes. -/
theorem spreadInWords_eq (hs : labels.size = r.width * r.height)
    (hq : ∀ p ∈ queue, r.Inside p.x p.y) :
    r.spreadInWords c (n + 1) labels queue = once (.ok (r.spread c n labels queue)) := by
  fun_induction Raster.spread r c n labels queue with
  | case1 labels =>
    rw [spreadInWords]
    rfl
  | case2 labels p queue next ih =>
    obtain ⟨hp, hq⟩ := List.forall_mem_cons.mp hq
    rw [spreadInWords, foldlM_lookInWords hsize (fun _ => id) hs hp]
    exact ih (by rw [size_foldl_enqueue, hs]) fun q hmem => inside_foldl_enqueue hq q hmem

theorem fillFromInWords_eq (h : r.FilledUpTo c i labels n) (hi : i < r.width * r.height)
    (hcount : r.startsBefore c (i + 1) < wordLimit) :
    r.fillFromInWords c (labels, n) i = once (.ok (r.fillFrom c (labels, n) (r.pointAt i))) := by
  have hlt : i < labels.size := h.size_labels.symm ▸ hi
  have hn := (h.step hi).count_eq
  unfold fillFromInWords
  unfold fillFrom at hn ⊢
  simp only [placeOf_pointAt, Array.getElem?_eq_getElem hlt, need_some_bind,
    Option.some.injEq] at hn ⊢
  by_cases hnew : labels[i] = 0 ∧ r.isSet (r.pointAt i).x (r.pointAt i).y = true
  · rw [if_pos hnew] at hn ⊢
    have hadd : Word.add? wordLimit n 1 = some (n + 1) := if_pos (hn.trans_lt hcount)
    have hsize' : (labels.setIfInBounds i (n + 1)).size = r.width * r.height := by
      rw [Array.size_setIfInBounds, h.size_labels]
    rw [if_pos hnew, hadd, need_some_bind, spreadInWords_eq hsize hsize' fun q hmem =>
      List.mem_singleton.mp hmem ▸ inside_pointAt hi]
    rfl
  · rw [if_neg hnew, if_neg hnew]
    rfl

theorem foldlM_fillFromInWords (hi : i ≤ r.width * r.height)
    (hcount : r.startsBefore c i < wordLimit) :
    (List.range i).foldlM (r.fillFromInWords c) (Array.replicate (r.width * r.height) 0, 0) =
      once (.ok (((List.range i).map r.pointAt).foldl (r.fillFrom c)
        (Array.replicate (r.width * r.height) 0, 0))) := by
  induction i with
  | zero => rfl
  | succ i ih =>
    have hbefore := (startsBefore_mono i.le_succ).trans_lt hcount
    have hstep := fillFromInWords_eq hsize (filledUpTo_foldl r c (Nat.le_of_succ_le hi)) hi hcount
    rw [List.range_succ, List.foldlM_append, ih (Nat.le_of_succ_le hi) hbefore, List.map_append,
      List.map_singleton, List.foldl_concat]
    exact (congrArg (· >>= pure) hstep).trans rfl

/-- **The flood fill in words ends, with what the fill answers**, on every picture of fewer than
2^63 pixels and 2^32 components. -/
theorem fillInWords_eq (hcount : (r.fill c).2 < wordLimit) :
    r.fillInWords c = once (.ok (r.fill c)) := by
  have hsigned : Word.signed? ((r.width : Int) * r.height) = some ↑(r.width * r.height) := by
    rw [← Int.natCast_mul]
    exact if_pos ⟨by omega, by omega⟩
  unfold fillInWords
  rw [hsigned, need_some_bind, Int.toNat_natCast,
    foldlM_fillFromInWords hsize (Nat.le_refl _) ((filledUpTo_fill r c).count_eq ▸ hcount)]
  rfl

end

end Bitplane.Raster
