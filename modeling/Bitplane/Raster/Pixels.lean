import Bitplane.Raster.Bits
import Bitplane.Raster.Combine
import Bitplane.Raster.Lemmas

/-! # Packing, unpacking and combining, pixel by pixel

* `bit_tabulate`, `isSet_tabulate`: the raster of a function has its values as pixels.
* `ofBits?_eq`, `ofBits?_tooSmall`, `ofBits?_bufferSize`: when a grid of pixels is packed, and to
  what.
* `getElem?_toBits`, `get?_levels`: unpacking gives the pixels back, as truth values and as labels.
* `combine_eq`, `bit_invert`: combinations act on every pixel. -/

namespace Bitplane.Raster

open Byte (stride)

variable {r a b : Raster} {x y : Nat}

/-! ## Packing -/

@[simp] theorem length_packRow (row : Array Bool) : (packRow row).length = stride row.size := by
  simp [packRow]

theorem pixel_packRow (row : Array Bool) (hx : x < 8 * stride row.size) :
    (((packRow row)[x / 8]?).map (Byte.pixel · (x % 8))).getD false = row[x]?.getD false := by
  have hk : x / 8 < stride row.size := by omega
  unfold packRow
  rw [List.getElem?_map, List.getElem?_range hk]
  simp only [Option.map_some, Option.getD_some]
  unfold packByte
  rw [Byte.pixel_ofPixels (Nat.mod_lt x (by decide)) (by
    rw [Array.length_toList, Array.size_extract]; omega), Array.getElem?_toList,
    Array.getElem?_extract]
  split
  · rw [show 8 * (x / 8) + x % 8 = x by omega]
  · rw [Array.getElem?_eq_none (by omega)]

theorem keepsLength_packRow {w h : Nat} {g : Nat → Array Bool} (hg : ∀ y < h, (g y).size = w) :
    Rows.KeepsLength (stride w) h fun y _ => packRow (g y) := by
  intro y hy _ _
  rw [length_packRow, hg y hy]

@[simp] theorem width_tabulate (r : Raster) (f : Nat → Nat → Bool) :
    (r.tabulate f).width = r.width := rfl

@[simp] theorem height_tabulate (r : Raster) (f : Nat → Nat → Bool) :
    (r.tabulate f).height = r.height := rfl

theorem bit_tabulate (f : Nat → Nat → Bool) (hy : y < r.height) (hx : x < 8 * stride r.width) :
    (r.tabulate f).bit x y = (decide (x < r.width) && f x y) := by
  unfold tabulate
  have hf : Rows.KeepsLength (stride r.template.width) r.template.height
      fun y _ => packRow (Array.ofFn fun x : Fin r.width => f x y) :=
    keepsLength_packRow fun _ _ => Array.size_ofFn
  rw [bit_update (r := r.template) hf hy, pixel_packRow _ (by rwa [Array.size_ofFn]),
    Array.getElem?_ofFn]
  by_cases h : x < r.width <;> simp [h]

/-- **The raster of a function has its values as pixels.** -/
theorem isSet_tabulate (f : Nat → Nat → Bool) (x y : Nat) :
    (r.tabulate f).isSet x y = (decide (r.Inside x y) && f x y) := by
  rw [isSet_eq]
  by_cases h : r.Inside x y
  · have h2 : (r.tabulate f).Inside x y := h
    rw [decide_eq_true h, decide_eq_true h2, bit_tabulate f h.2 (lt_stride_of_lt_width h.1),
      decide_eq_true h.1]
    rfl
  · have h2 : ¬ (r.tabulate f).Inside x y := h
    rw [decide_eq_false h, decide_eq_false h2]
    rfl

theorem paddingClear_tabulate (f : Nat → Nat → Bool) : (r.tabulate f).PaddingClear := by
  rw [paddingClear_iff]
  intro y hy x hw hx
  rw [width_tabulate] at hw hx
  rw [bit_tabulate (r := r) f hy hx, decide_eq_false (Nat.not_lt.mpr hw), Bool.false_and]

theorem size_extract_row {α : Type} {bits : Array α} {w h : Nat} (hs : bits.size = w * h)
    (hy : y < h) : (bits.extract (y * w) ((y + 1) * w)).size = w := by
  have h1 : (y + 1) * w ≤ w * h := by
    rw [Nat.mul_comm w h]
    exact Nat.mul_le_mul_right w hy
  rw [Array.size_extract, hs, Nat.min_eq_left h1, Nat.add_mul, Nat.one_mul, Nat.add_sub_cancel_left]

/-- **A grid of pixels of the right size is packed** to the raster of its entries. -/
theorem ofBits?_eq {bits : Array Bool} {w h : Nat} (hw : 2 ≤ w) (hh : 2 ≤ h)
    (hs : bits.size = w * h) :
    ofBits? bits w h = .ok ((blank w h (by omega) (by omega)).tabulate fun x y =>
      bits[y * w + x]?.getD false) := by
  have hw0 : 0 < w := by omega
  have hh0 : 0 < h := by omega
  have h1 : checkSides w h = .ok () := checkSides_ok hw hh
  have h2 : blank? w h = .ok (blank w h hw0 hh0) := dif_pos ⟨hw0, hh0⟩
  have h3 : ofBits? bits w h = .ok ((blank w h hw0 hh0).update .standard fun y _ =>
      packRow (bits.extract (y * w) ((y + 1) * w))) := by
    unfold ofBits?
    rw [h1, h2, if_neg (fun hn => hn hs)]
    rfl
  rw [h3]
  congr 1
  refine eq_of_bit rfl rfl fun y hy x hx => ?_
  have hrow : (bits.extract (y * w) ((y + 1) * w)).size = w := size_extract_row hs hy
  have hf : Rows.KeepsLength (stride (blank w h hw0 hh0).width) (blank w h hw0 hh0).height
      fun y _ => packRow (bits.extract (y * w) ((y + 1) * w)) :=
    keepsLength_packRow fun y hy => size_extract_row hs hy
  rw [bit_tabulate (r := blank w h hw0 hh0) _ hy hx, bit_update (r := blank w h hw0 hh0) hf hy,
    pixel_packRow _ (by rw [hrow]; exact hx), Array.getElem?_extract]
  have hmul : (y + 1) * w = y * w + w := by rw [Nat.add_mul, Nat.one_mul]
  have hle : (y + 1) * w ≤ bits.size := by
    rw [hs, Nat.mul_comm w h]
    exact Nat.mul_le_mul_right w hy
  by_cases hxw : x < w
  · have hxw2 : x < (blank w h hw0 hh0).width := hxw
    rw [if_pos (by omega), decide_eq_true hxw2, Bool.true_and]
  · have hxw2 : ¬ x < (blank w h hw0 hh0).width := hxw
    rw [if_neg (by omega), decide_eq_false hxw2]
    rfl

theorem ofBits?_tooSmall (bits : Array Bool) {w h : Nat} (hwh : w < 2 ∨ h < 2) :
    ofBits? bits w h = .error (.tooSmall w h 2) := by
  unfold ofBits? checkSides leastSide
  rw [if_pos hwh]
  rfl

theorem ofBits?_bufferSize {bits : Array Bool} {w h : Nat} (hw : 2 ≤ w) (hh : 2 ≤ h)
    (hs : bits.size ≠ w * h) : ofBits? bits w h = .error (.bufferSize (w * h) bits.size) := by
  unfold ofBits? checkSides leastSide
  rw [if_neg (by omega), if_pos hs]
  rfl

/-! ## Unpacking -/

/-- Lists of one length, put one behind the other, read at one place. -/
theorem getElem?_flatMap_of_length {α β : Type} {g : α → List β} {n : Nat} (hn : 0 < n) :
    ∀ {l : List α}, (∀ v ∈ l, (g v).length = n) → ∀ x : Nat,
      (l.flatMap g)[x]? = (l[x / n]?).bind fun v => (g v)[x % n]?
  | [], _, x => by simp
  | v :: l, hg, x => by
    have hv : (g v).length = n := hg v List.mem_cons_self
    rw [List.flatMap_cons]
    by_cases hx : x < n
    · rw [List.getElem?_append_left (by rw [hv]; exact hx), Nat.div_eq_of_lt hx,
        Nat.mod_eq_of_lt hx]
      rfl
    · have hle : n ≤ x := Nat.le_of_not_lt hx
      rw [List.getElem?_append_right (by rw [hv]; exact hle), hv,
        getElem?_flatMap_of_length hn (fun w hw => hg w (List.mem_cons_of_mem v hw)) (x - n),
        Nat.div_eq_sub_div hn hle, Nat.mod_eq_sub_mod hle, List.getElem?_cons_succ]

theorem length_flatMap_of_length {α β : Type} {g : α → List β} {n : Nat} {l : List α}
    (hg : ∀ v ∈ l, (g v).length = n) : (l.flatMap g).length = n * l.length := by
  rw [List.length_flatMap, List.map_congr_left hg, List.map_const', List.sum_replicate_nat,
    Nat.mul_comm]

theorem keepsLength_unpack {β : Type} {g : UInt8 → List β} (hg : ∀ v, (g v).length = 8)
    (r : Raster) :
    Rows.KeepsLength r.width r.height fun y _ => ((r.row y).flatMap g).take r.width := by
  intro y hy _ _
  have : r.width ≤ 8 * stride r.width := by unfold stride; omega
  rw [List.length_take, length_flatMap_of_length fun v _ => hg v, length_row hy,
    Nat.min_eq_left this]

theorem getElem?_unpack {β : Type} {g : UInt8 → List β} (hg : ∀ v, (g v).length = 8) (r : Raster)
    (s : Strategy) (d : β) (hx : x < r.width) (hy : y < r.height) :
    (Rows.update s r.width (fun y _ => ((r.row y).flatMap g).take r.width)
      (Array.replicate (r.width * r.height) d))[r.width * y + x]? =
      ((r.row y)[x / 8]?).bind fun v => (g v)[x % 8]? := by
  have hfull : Rows.fullRows r.width (Array.replicate (r.width * r.height) d) = r.height := by
    unfold Rows.fullRows
    rw [Array.size_replicate, Nat.mul_div_cancel_left _ r.width_pos]
  have hf : Rows.KeepsLength r.width
      (Rows.fullRows r.width (Array.replicate (r.width * r.height) d))
      fun y _ => ((r.row y).flatMap g).take r.width := by
    rw [hfull]; exact keepsLength_unpack hg r
  have h := Rows.rowOf_update (s := s) hf (by rw [hfull]; exact hy)
  have h2 := congrArg (fun l => l[x]?) h
  simp only [Rows.getElem?_rowOf, if_pos hx] at h2
  rw [h2, List.getElem?_take, if_pos hx,
    getElem?_flatMap_of_length (Nat.zero_lt_succ 7) fun v _ => hg v]

@[simp] theorem length_byteLevels (b : UInt8) : (byteLevels b).length = 8 := by simp [byteLevels]

theorem row_get (hx : x < r.width) (hy : y < r.height) :
    ∃ b, (r.row y)[x / 8]? = some b ∧ r.isSet x y = Byte.pixel b (x % 8) := by
  have hk : x / 8 < (r.row y).length := by
    rw [length_row hy]
    exact Byte.div_lt_stride hx
  refine ⟨(r.row y)[x / 8], List.getElem?_eq_getElem hk, ?_⟩
  rw [isSet_of_inside ⟨hx, hy⟩]
  unfold bit
  rw [List.getElem?_eq_getElem hk]
  rfl

@[simp] theorem size_toBits (r : Raster) : r.toBits.size = r.width * r.height := by simp [toBits]

theorem getElem?_toBits (hx : x < r.width) (hy : y < r.height) :
    r.toBits[r.width * y + x]? = some (r.isSet x y) := by
  obtain ⟨b, hb, hs⟩ := row_get hx hy
  unfold toBits
  rw [getElem?_unpack Byte.length_pixels r _ _ hx hy, hb, hs]
  exact Byte.getElem?_pixels b (Nat.mod_lt x (by decide))

/-- **The labels of a picture** are one where a pixel is set and zero elsewhere. -/
theorem get?_levels (hx : x < r.width) (hy : y < r.height) :
    r.levels.get? x y = some (r.isSet x y).toNat := by
  obtain ⟨b, hb, hs⟩ := row_get hx hy
  have h8 : x % 8 < 8 := Nat.mod_lt x (by decide)
  have hin : x < r.levels.width ∧ y < r.levels.height := ⟨hx, hy⟩
  unfold LabelGrid.get?
  rw [if_pos hin, Nat.mul_comm]
  show (Rows.update _ _ _ _)[_]? = _
  rw [show r.levels.width * y + x = r.width * y + x from rfl,
    getElem?_unpack length_byteLevels r _ _ hx hy, hb, hs]
  simp [byteLevels, h8, Byte.level_eq b h8]

/-! ## Combining -/

theorem length_zipRows (op : Combination) (hw : a.width = b.width) (hh : a.height = b.height)
    (hy : y < a.height) :
    (List.zipWith op.onBytes (a.row y) (b.row y)).length = stride a.width := by
  rw [List.length_zipWith, length_row hy, length_row (hh ▸ hy), ← hw, Nat.min_self]

theorem pixel_onBytes (op : Combination) (p q : UInt8) (i : Nat) :
    Byte.pixel (op.onBytes p q) i = op.onPixels (Byte.pixel p i) (Byte.pixel q i) := by
  cases op <;> simp [Combination.onBytes, Combination.onPixels]

theorem sameSize_iff : a.sameSize b = true ↔ a.width = b.width ∧ a.height = b.height := by
  simp [sameSize, size]

theorem checkSameSize_ok (hw : a.width = b.width) (hh : a.height = b.height) :
    a.checkSameSize b = .ok () := if_pos (sameSize_iff.mpr ⟨hw, hh⟩)

theorem checkSameSize_error (h : ¬ (a.width = b.width ∧ a.height = b.height)) :
    a.checkSameSize b = .error (.dimensionMismatch a.size b.size) :=
  if_neg (mt sameSize_iff.mp h)

/-- **Rasters of one size are combined pixel by pixel**, padding included. -/
theorem combine_eq (op : Combination) (hw : a.width = b.width) (hh : a.height = b.height) :
    ∃ c, combine op a b = .ok c ∧ c.width = a.width ∧ c.height = a.height ∧
      ∀ y < a.height, ∀ x < 8 * stride a.width,
        c.bit x y = op.onPixels (a.bit x y) (b.bit x y) := by
  refine ⟨a.template.update .standard fun y _ => List.zipWith op.onBytes (a.row y) (b.row y),
    ?_, rfl, rfl, fun y hy x hx => ?_⟩
  · unfold combine
    rw [checkSameSize_ok hw hh]
    rfl
  · have hf : Rows.KeepsLength (stride a.template.width) a.template.height
        fun y _ => List.zipWith op.onBytes (a.row y) (b.row y) :=
      fun y hy _ _ => length_zipRows op hw hh hy
    have hka : x / 8 < (a.row y).length := by rw [length_row hy]; omega
    have hkb : x / 8 < (b.row y).length := by rw [length_row (hh ▸ hy), ← hw]; omega
    rw [bit_update (r := a.template) hf hy, List.getElem?_zipWith, bit, bit,
      List.getElem?_eq_getElem hka, List.getElem?_eq_getElem hkb]
    exact pixel_onBytes op _ _ _

theorem combine_error (op : Combination) (h : ¬ (a.width = b.width ∧ a.height = b.height)) :
    combine op a b = .error (.dimensionMismatch a.size b.size) := by
  unfold combine
  rw [checkSameSize_error h]
  rfl

@[simp] theorem width_invert (r : Raster) : r.invert.width = r.width := rfl

@[simp] theorem height_invert (r : Raster) : r.invert.height = r.height := rfl

theorem bit_invert (hy : y < r.height) (hx : x < 8 * stride r.width) :
    r.invert.bit x y = (decide (x < r.width) && !r.bit x y) := by
  have hf : Rows.KeepsLength (stride r.template.width) r.template.height
      fun y _ => Byte.maskLast r.paddingMask ((r.row y).map fun b => ~~~ b) := by
    intro y hy _ _
    rw [Byte.length_maskLast, List.length_map]
    exact length_row hy
  have hk : x / 8 < (r.row y).length := by rw [length_row hy]; omega
  unfold invert
  rw [bit_update (r := r.template) hf hy]
  unfold paddingMask
  rw [pixel_maskLast (by rw [List.length_map, length_row hy]) hx, List.getElem?_map, bit,
    List.getElem?_eq_getElem hk]
  simp

end Bitplane.Raster
