import Bitplane.Proofs.Morphology.Erosion
import Bitplane.Proofs.Region.ExtractionPasses
import Bitplane.Region.RowPasses

/-! # No step over the bytes is out of range

On a raster of two rows every row of bytes is where it is looked for, and so is every byte of the
rows beside it. So the operators, and the passes that take the pixels out of their bytes, answer in
words what they answer without asking.

* `updateBytes_eq`, `updateLabels_eq`: a pass none of whose rows is out of range.
* `sweep_eq`: a kernel none of whose bytes is out of range; `dilate_eq`, `erode_eq`, `filter_eq`:
  the three kernels.
* `unpackRow_eq`: the pixels of a row, each read in its byte; `bits_eq`, `levels_eq`: those of all
  rows. -/

namespace Bitplane.Region.Checked

open Byte (stride)
open Morphology (RowPlace RowView)

variable {r : Raster} {g : LabelGrid} {s : Strategy} {v : RowView} {m : UInt8} {dst : List UInt8}
  {k x y : Nat}

/-! ## Passes over rows -/

theorem updateBytes_eq {f : Nat → List UInt8 → Except Halt (List UInt8)}
    {f' : Nat → List UInt8 → List UInt8} (hf : Rows.KeepsLength (stride r.width) r.height f')
    (h : ∀ y < r.height, f y (r.row y) = .ok (f' y (r.row y))) :
    updateBytes s f r = .ok (r.update s f') := by
  have heq : Rows.tryUpdate s (stride r.width) f r.bytes =
      .ok (Rows.update s (stride r.width) f' r.bytes) :=
    Rows.tryUpdate_eq (by rwa [Raster.fullRows_bytes]) (by rwa [Raster.fullRows_bytes])
  unfold updateBytes
  split
  next hb =>
    rw [heq] at hb
    cases hb
  next hb =>
    rw [heq] at hb
    cases hb
    rfl

theorem updateLabels_eq {f : Nat → List Nat → Except Halt (List Nat)}
    {f' : Nat → List Nat → List Nat} (hf : Rows.KeepsLength g.width g.height f')
    (h : ∀ y < g.height, f y (g.row y) = .ok (f' y (g.row y))) :
    updateLabels s f g = .ok (g.update s f') := by
  have heq : Rows.tryUpdate s g.width f g.labels = .ok (Rows.update s g.width f' g.labels) :=
    Rows.tryUpdate_eq (by rwa [LabelGrid.fullRows_labels]) (by rwa [LabelGrid.fullRows_labels])
  unfold updateLabels
  split
  next hb =>
    rw [heq] at hb
    cases hb
  next hb =>
    rw [heq] at hb
    cases hb
    rfl

/-! ## Operators -/

theorem require_row (hy : y < r.height) : require (r.row? y) = .ok (r.row y) := by
  rw [Raster.row?, if_pos hy, require]

theorem rowBeside_none (o : Option Nat) : rowBeside r false o = .ok none := rfl

theorem rowBeside_some (hy : y < r.height) :
    rowBeside r true (some y) = .ok (some (r.row y).toArray) := by
  unfold rowBeside
  rw [if_pos rfl, require_some, ok_bind, require_row hy]
  rfl

/-- **The rows beside a row are there** where its place says so, as there are two rows. -/
theorem view_eq (hh : 2 ≤ r.height) (hl : r.height < longLimit) (hy : y < r.height) :
    view r y = .ok (RowView.of r y) := by
  have hadd : Word.add? longLimit y 1 = some (y + 1) := if_pos (by omega)
  have hsub : 0 < y → Word.sub? y 1 = some (y - 1) := fun h0 => if_pos h0
  unfold view
  rcases RowView.of_cases r y with ⟨h0, hv⟩ | ⟨h0, -, hv⟩ | ⟨h0, hlast, hv⟩
  · have hplace : RowPlace.of y r.height = .top := congrArg RowView.place hv
    rw [hv, hplace, hadd]
    simp only [ne_eq, not_true_eq_false, decide_false, reduceCtorEq, not_false_eq_true, decide_true]
    rw [rowBeside_none, ok_bind, rowBeside_some (by omega), ok_bind, require_row hy]
    rfl
  · have hplace : RowPlace.of y r.height = .bottom := congrArg RowView.place hv
    rw [hv, hplace, hsub h0]
    simp only [ne_eq, not_true_eq_false, decide_false, reduceCtorEq, not_false_eq_true, decide_true]
    rw [rowBeside_some (by omega), ok_bind, rowBeside_none, ok_bind, require_row hy]
    rfl
  · have hplace : RowPlace.of y r.height = .interior := congrArg RowView.place hv
    rw [hv, hplace, hsub h0, hadd]
    simp only [ne_eq, reduceCtorEq, not_false_eq_true, decide_true]
    rw [rowBeside_some (by omega), ok_bind, rowBeside_some (by omega), ok_bind, require_row hy]
    rfl

/-- **The rows of a view have `k` bytes** each. -/
structure RowsOfLength (v : RowView) (k : Nat) : Prop where
  current : v.current.size = k
  above : ∀ row, v.above = some row → row.size = k
  below : ∀ row, v.below = some row → row.size = k

theorem rowsOfLength_of (hh : 2 ≤ r.height) (hy : y < r.height) :
    RowsOfLength (RowView.of r y) (stride r.width) := by
  have hsize : ∀ {z}, z < r.height → (r.row z).toArray.size = stride r.width := fun hz => by
    rw [List.size_toArray, Raster.length_row hz]
  rcases RowView.of_cases r y with ⟨h0, hv⟩ | ⟨h0, -, hv⟩ | ⟨h0, hlast, hv⟩ <;> rw [hv]
  · exact ⟨hsize hy, nofun, fun _ h => Option.some.inj h ▸ hsize (by omega)⟩
  · exact ⟨hsize hy, fun _ h => Option.some.inj h ▸ hsize (by omega), nofun⟩
  · exact ⟨hsize hy, fun _ h => Option.some.inj h ▸ hsize (by omega),
      fun _ h => Option.some.inj h ▸ hsize (by omega)⟩

theorem require_byteAt {row : Array UInt8} (h : k < row.size) :
    require row[k]? = .ok (RowView.byteAt row k) := by
  unfold RowView.byteAt
  rw [Array.getElem?_eq_getElem h]
  rfl

theorem byteAt_eq {row : Option (Array UInt8)} (h : ∀ a, row = some a → k < a.size) :
    byteAt row k = .ok (RowView.byteAt? row k) := by
  cases row with
  | none => rfl
  | some a => exact require_byteAt (h a rfl)

theorem fromLeft_eq (h : RowsOfLength v x) (hk : k < x) : fromLeft v k = .ok (v.fromLeft k) := by
  have hcur := h.current
  unfold fromLeft RowView.fromLeft
  split
  next => rfl
  next =>
    rw [require_byteAt (by omega)]
    rfl

theorem dilateByte_eq (h : RowsOfLength v x) (hk : k < x) :
    dilateByte v k = .ok (Morphology.dilateByte v k) := by
  unfold dilateByte Morphology.dilateByte
  rw [require_byteAt (h.current.symm ▸ hk), ok_bind, byteAt_eq fun a ha => (h.above a ha).symm ▸ hk,
    ok_bind, byteAt_eq fun a ha => (h.below a ha).symm ▸ hk, ok_bind, fromLeft_eq h hk]
  rfl

theorem filterByte_eq (h : RowsOfLength v x) (hk : k < x) :
    filterByte v k = .ok (Morphology.filterByte v k) := by
  unfold filterByte Morphology.filterByte
  rw [require_byteAt (h.current.symm ▸ hk), ok_bind, fromLeft_eq h hk, ok_bind,
    byteAt_eq fun a ha => (h.above a ha).symm ▸ hk, ok_bind,
    byteAt_eq fun a ha => (h.below a ha).symm ▸ hk]
  rfl

theorem erodeByte_eq {up down : Array UInt8} (h : RowsOfLength v x) (hup : v.above = some up)
    (hdown : v.below = some down) (hk : k < x) :
    erodeByte v up down (x - 1) k = .ok (Morphology.erodeByte v up down x k) := by
  have hlast : k = x - 1 ↔ k + 1 = x := by omega
  unfold erodeByte Morphology.erodeByte
  rw [require_byteAt (h.current.symm ▸ hk), ok_bind, require_byteAt ((h.above up hup).symm ▸ hk),
    ok_bind, require_byteAt ((h.below down hdown).symm ▸ hk), ok_bind, fromLeft_eq h hk, ok_bind]
  simp only [hlast]
  rfl

theorem mapM_bytes {f : Nat → Except Halt UInt8} {f' : Nat → UInt8}
    (h : ∀ k < dst.length, f k = .ok (f' k)) :
    (List.range dst.length).mapM f = .ok (dst.mapIdx fun k _ => f' k) := by
  rw [mapM_ok fun k hk => h k (List.mem_range.mp hk)]
  refine congrArg Except.ok (List.ext_getElem? fun k => ?_)
  rw [List.getElem?_map, List.getElem?_mapIdx]
  by_cases hk : k < dst.length
  · rw [List.getElem?_range hk, List.getElem?_eq_getElem hk]
    rfl
  · rw [List.getElem?_eq_none (by simpa using hk), List.getElem?_eq_none (by simpa using hk)]
    rfl

/-- **The kernel answers as another does** that does not ask, and keeps the length of the row. -/
structure Answers (kernel : Kernel) (kernel' : Morphology.Kernel) : Prop where
  eq_ok : ∀ {v dst}, RowsOfLength v dst.length → 0 < dst.length → kernel v dst = .ok (kernel' v dst)
  length_eq : ∀ v dst, (kernel' v dst).length = dst.length

theorem dilateRow_answers : Answers dilateRow Morphology.dilateRow where
  eq_ok h _ := mapM_bytes fun _ => dilateByte_eq h
  length_eq _ _ := List.length_mapIdx

theorem filterRow_answers : Answers filterRow Morphology.filterRow where
  eq_ok h _ := mapM_bytes fun _ => filterByte_eq h
  length_eq _ _ := List.length_mapIdx

theorem erodeRow_answers : Answers erodeRow Morphology.erodeRow where
  eq_ok {v dst} h hpos := by
    obtain ⟨place, above, current, below⟩ := v
    -- only an interior row with both rows beside it is written
    rcases place with _ | _ | _ <;> rcases above with _ | up <;> rcases below with _ | down <;> try rfl
    change (require (Word.sub? dst.length 1) >>= fun last =>
      (List.range dst.length).mapM (erodeByte _ up down last)) = _
    rw [require_sub hpos, ok_bind]
    exact mapM_bytes fun _ => erodeByte_eq h rfl rfl
  length_eq := Morphology.length_erodeRow

theorem maskLast_eq (hpos : dst ≠ []) : maskLast m dst.length dst = .ok (Byte.maskLast m dst) := by
  have hlen : 0 < dst.length := List.length_pos_iff.mpr hpos
  have hset : ∀ {dst : List UInt8} (h : dst.length - 1 < dst.length),
      dst.set (dst.length - 1) (dst[dst.length - 1] &&& m) = Byte.maskLast m dst := by
    intro dst
    induction dst with
    | nil => intro h; cases h
    | cons b dst ih =>
      intro h
      cases dst with
      | nil => rfl
      | cons b' dst =>
        have := ih (by simp)
        simpa [Byte.maskLast] using this
  unfold maskLast
  rw [require_sub hlen, ok_bind, List.getElem?_eq_getElem (by omega), require_some, ok_bind,
    ← hset (by omega)]
  rfl

/-- **A sweep asks for nothing that is not there.** -/
theorem sweep_eq {kernel : Kernel} {kernel' : Morphology.Kernel} (hk : Answers kernel kernel')
    (s : Strategy) (hl : r.height < longLimit) : sweep kernel s r =
      (Morphology.sweep? s kernel' r).mapError fun e => .refused (.morphology e) := by
  unfold sweep
  by_cases hs : r.width < 2 ∨ r.height < 2
  · unfold Morphology.sweep?
    rw [checkSides_tooSmall hs]
    rfl
  · obtain ⟨hw, hh⟩ : 2 ≤ r.width ∧ 2 ≤ r.height := by omega
    rw [checkSides_ok hw hh, Morphology.sweep?_ok s _ hw hh]
    refine updateBytes_eq (fun y _ row hrow => by rw [Byte.length_maskLast, hk.length_eq, hrow])
      fun y hy => ?_
    have hrow : (r.template.row y).length = stride r.width := Raster.length_row hy
    have hrows : RowsOfLength (RowView.of r y) (r.template.row y).length :=
      hrow.symm ▸ rowsOfLength_of hh hy
    have hlen := hk.length_eq (RowView.of r y) (r.template.row y)
    have hpos : 0 < (r.template.row y).length := hrow ▸ Byte.stride_pos r.width_pos
    rw [view_eq hh hl hy, ok_bind, hk.eq_ok hrows hpos, ok_bind, ← hrow, ← hlen]
    exact maskLast_eq (List.ne_nil_of_length_pos (hlen ▸ hpos))

theorem dilate_eq (s : Strategy) (hl : r.height < longLimit) :
    dilate s r = (r.dilateWith s).mapError fun e => .refused (.morphology e) :=
  sweep_eq dilateRow_answers s hl

theorem erode_eq (s : Strategy) (hl : r.height < longLimit) :
    erode s r = (r.erodeWith s).mapError fun e => .refused (.morphology e) :=
  sweep_eq erodeRow_answers s hl

theorem filter_eq (s : Strategy) (hl : r.height < longLimit) :
    filter s r = (r.filterIsolatedWith s).mapError fun e => .refused (.morphology e) :=
  sweep_eq filterRow_answers s hl

/-! ## Unpacking -/

/-- **A value for every pixel, each read in the byte that holds it.** -/
theorem unpackRow_eq {α : Type} (read : UInt8 → Nat → α) {src : List UInt8} {row : List α}
    (h : row.length ≤ 8 * src.length) : unpackRow read src.toArray row =
      .ok ((src.flatMap fun b => (List.range 8).map (read b)).take row.length) := by
  have hbyte : ∀ x < row.length, x / 8 < src.length := fun x hx => by omega
  unfold unpackRow
  rw [mapM_ok (g := fun x => read (src[x / 8]?.getD 0) (x % 8)) fun x hx => ?_]
  · refine congrArg Except.ok (List.ext_getElem? fun x => ?_)
    rw [List.getElem?_map, List.getElem?_take]
    by_cases hx : x < row.length
    · rw [if_pos hx, List.getElem?_range hx, Option.map_some,
        Raster.getElem?_flatMap_of_length (Nat.zero_lt_succ 7) fun v _ => by simp,
        List.getElem?_eq_getElem (hbyte x hx), Option.bind_some, List.getElem?_map,
        List.getElem?_range (Nat.mod_lt x (by decide)), Option.map_some, Option.getD_some]
    · rw [if_neg hx, List.getElem?_eq_none (by simpa using hx)]
      rfl
  · rw [List.getElem?_toArray, List.getElem?_eq_getElem (hbyte x (List.mem_range.mp hx)),
      require_some, ok_bind]
    rfl

theorem unpackRow_row {α : Type} (read : UInt8 → Nat → α) {row : List α} (hy : y < r.height)
    (hrow : row.length = r.width) : (do
      let src ← require (r.row? y)
      unpackRow read src.toArray row) =
      .ok (((r.row y).flatMap fun b => (List.range 8).map (read b)).take r.width) := by
  have hlen : row.length ≤ 8 * (r.row y).length := by
    rw [hrow, Raster.length_row hy]
    unfold stride
    omega
  rw [require_row hy, ok_bind, unpackRow_eq read hlen, hrow]

theorem bits_eq (hw : r.width < wordLimit) (hh : r.height < wordLimit) : bits r = .ok r.toBits := by
  have hfull : Rows.fullRows r.width (Array.replicate (r.width * r.height) false) = r.height := by
    rw [Rows.fullRows, Array.size_replicate, Nat.mul_div_cancel_left _ r.width_pos]
  unfold bits
  rw [require_mul (mul_lt_longLimit hw hh), ok_bind]
  refine Rows.tryUpdate_eq (hfull.symm ▸ Raster.keepsLength_unpack Byte.length_pixels r) fun y hy => ?_
  exact unpackRow_row Byte.pixel (hfull ▸ hy) (Rows.length_rowOf hy)

theorem levels_eq (hw : r.width < wordLimit) (hh : r.height < wordLimit) :
    levels r = .ok r.levels := by
  unfold levels
  rw [require_mul (mul_lt_longLimit hw hh), ok_bind]
  exact updateLabels_eq (Raster.keepsLength_unpack Raster.length_byteLevels r) fun y hy =>
    unpackRow_row Byte.level hy (LabelGrid.length_row hy)

end Bitplane.Region.Checked
