import Bitplane.Proofs.Morphology.Kernels

/-! # Erosion

The table of shrunk bytes counts the neighbours beyond the ends of a byte as set, and the pixels
that come in from the bytes beside it decide afterwards whether the two end pixels stay.

* `pixel_erodeByte`: with that correction a pixel of an eroded byte stays exactly if the pixels on
  both sides of it are set, whichever bytes they lie in, and those above and below.
* `erodeRow_of_border`, `erodeRow_of_interior`: the first and the last row keep nothing, every other
  row is eroded byte by byte.
* `sweep_erode`: so with clear padding the swept picture is the one eroded pixel by pixel.
* `erode_keeps_surrounded`: erosion succeeds on every picture of two rows and columns whose padding
  is clear, and keeps the pixels off the border whose neighbours are all set. -/

namespace Bitplane

open Byte (stride pixel)

namespace Morphology

open RowView (byteAt)

variable {r : Raster} {v : RowView} {up down : Array UInt8} {c b : UInt8} {i k n x y : Nat}

/-! ## Pixels that come in decide over the ends of a byte -/

theorem pixel_fromLeft_of_ne (v : RowView) (k : Nat) (hi : i < 8) (h : i ≠ 0) :
    pixel (v.fromLeft k) i = false := by
  unfold RowView.fromLeft
  split
  · exact Byte.pixel_zero i
  · rw [pixel_low_shiftLeft _ hi, decide_eq_false h, Bool.false_and]

theorem pixel_fromRight_of_ne (v : RowView) (k : Nat) (hi : i < 8) (h : i ≠ 7) :
    pixel (v.fromRight k) i = false := by
  unfold RowView.fromRight
  rw [pixel_shiftRight_seven _ hi, decide_eq_false h, Bool.false_and]

/-- A byte with at most one pixel set is zero exactly if that pixel is clear. -/
theorem eq_zero_iff_pixel {j : Nat} (hc : ∀ i < 8, i ≠ j → pixel c i = false) :
    c = 0 ↔ pixel c j = false := by
  constructor
  · rintro rfl
    exact Byte.pixel_zero j
  · intro hj
    refine Byte.eq_of_pixel fun i hi => ?_
    rw [Byte.pixel_zero]
    by_cases h : i = j
    · rw [h, hj]
    · exact hc i hi h

theorem pixel_clearUnless {j : Nat} {m : UInt8} (hm : ∀ i < 8, pixel m i = decide (i ≠ j))
    (hc : ∀ i < 8, i ≠ j → pixel c i = false) (hi : i < 8) :
    pixel (if c = 0 then b &&& m else b) i = (pixel b i && (decide (i ≠ j) || pixel c i)) := by
  by_cases h : i = j
  · subst h
    cases hp : pixel c i
    · rw [if_pos ((eq_zero_iff_pixel hc).mpr hp), Byte.pixel_and, hm i hi]
      simp
    · rw [if_neg fun h0 => by rw [(eq_zero_iff_pixel hc).mp h0] at hp; cases hp]
      simp
  · rw [decide_eq_true h, Bool.true_or, Bool.and_true]
    split
    · rw [Byte.pixel_and, hm i hi, decide_eq_true h, Bool.and_true]
    · rfl

/-- The shrunk byte, whose end pixels count the neighbours beyond as set. -/
theorem pixel_shrinkByte (b : UInt8) (hi : i < 8) : pixel (shrinkByte b) i =
    (pixel b i && (pixel (b <<< 1) i || decide (i = 7)) && (pixel (b >>> 1) i || decide (i = 0))) := by
  have h1 : ∀ i < 8, pixel 0x01 i = decide (i = 7) := by decide
  have h80 : ∀ i < 8, pixel 0x80 i = decide (i = 0) := by decide
  unfold shrinkByte
  rw [Byte.pixel_and, Byte.pixel_and, Byte.pixel_or, Byte.pixel_or, h1 i hi, h80 i hi]

theorem pixel_erodeByte_shifted (hi : i < 8) (hn : k + 1 = n → v.fromRight k = 0) :
    pixel (erodeByte v up down n k) i = (pixel (byteAt v.current k) i &&
      (pixel (byteAt v.current k >>> 1) i || pixel (v.fromLeft k) i) &&
      (pixel (byteAt v.current k <<< 1) i || pixel (v.fromRight k) i) &&
      pixel (byteAt up k) i && pixel (byteAt down k) i) := by
  have h7f : ∀ i < 8, pixel 0x7f i = decide (i ≠ 0) := by decide
  have hfe : ∀ i < 8, pixel 0xfe i = decide (i ≠ 7) := by decide
  have hlast : (k + 1 = n ∨ v.fromRight k = 0) ↔ v.fromRight k = 0 := or_iff_right_of_imp hn
  unfold erodeByte
  simp only [hlast]
  rw [pixel_clearUnless hfe (fun i => pixel_fromRight_of_ne v k) hi,
    pixel_clearUnless h7f (fun i => pixel_fromLeft_of_ne v k) hi, Byte.pixel_and, Byte.pixel_and,
    entry_shrink, pixel_shrinkByte _ hi]
  -- what the table counts as set at an end is what comes in there
  have hleft : ((pixel (byteAt v.current k >>> 1) i || decide (i = 0)) &&
      (decide (i ≠ 0) || pixel (v.fromLeft k) i)) =
      (pixel (byteAt v.current k >>> 1) i || pixel (v.fromLeft k) i) := by
    rw [Byte.pixel_shiftRight _ hi]
    by_cases h : i = 0
    · simp [h]
    · simp [h, pixel_fromLeft_of_ne v k hi h]
  have hright : ((pixel (byteAt v.current k <<< 1) i || decide (i = 7)) &&
      (decide (i ≠ 7) || pixel (v.fromRight k) i)) =
      (pixel (byteAt v.current k <<< 1) i || pixel (v.fromRight k) i) := by
    rw [Byte.pixel_shiftLeft _ hi]
    by_cases h : i = 7
    · simp [h]
    · simp [h, pixel_fromRight_of_ne v k hi h]
  rw [← hleft, ← hright]
  ac_rfl

/-- **A pixel of an eroded byte** stays if the pixels on both sides, above and below are set. -/
theorem pixel_erodeByte (r : Raster) (hi : i < 8) :
    pixel (erodeByte (RowView.of r y) (r.row (y - 1)).toArray (r.row (y + 1)).toArray
      (stride r.width) k) i = (r.bit (8 * k + i) y &&
        (decide (0 < 8 * k + i) && r.bit (8 * k + i - 1) y) && r.bit (8 * k + i + 1) y &&
        r.bit (8 * k + i) (y - 1) && r.bit (8 * k + i) (y + 1)) := by
  have hn : k + 1 = stride r.width → (RowView.of r y).fromRight k = 0 := by
    intro hk
    rw [eq_zero_iff_pixel (j := 7) fun i => pixel_fromRight_of_ne _ k]
    unfold RowView.fromRight
    rw [pixel_shiftRight_seven _ (by decide), pixel_current r y (k + 1) (by decide),
      Raster.bit_of_stride_le (by omega), Bool.and_false]
  rw [pixel_erodeByte_shifted hi hn, pixel_left r y k hi, pixel_right r y k hi,
    pixel_current r y k hi, pixel_byteAt r (y - 1) k hi, pixel_byteAt r (y + 1) k hi]

/-! ## Rows -/

theorem length_erodeRow (v : RowView) (dst : List UInt8) :
    (erodeRow v dst).length = dst.length := by
  unfold erodeRow
  split
  · exact List.length_mapIdx
  · rfl

theorem erodeRow_of_border (hy : y = 0 ∨ y + 1 = r.height) (dst : List UInt8) :
    erodeRow (RowView.of r y) dst = dst := by
  rcases RowView.of_cases r y with ⟨-, hv⟩ | ⟨-, -, hv⟩ | ⟨h0, hlast, -⟩
  · rw [hv]
    rfl
  · rw [hv]
    rfl
  · omega

theorem erodeRow_of_interior (h0 : 0 < y) (hl : y + 1 < r.height) (dst : List UInt8) :
    erodeRow (RowView.of r y) dst = dst.mapIdx fun k _ =>
      erodeByte (RowView.of r y) (r.row (y - 1)).toArray (r.row (y + 1)).toArray dst.length k := by
  rcases RowView.of_cases r y with ⟨htop, -⟩ | ⟨-, hlast, -⟩ | ⟨-, -, hv⟩
  · omega
  · omega
  · rw [hv]
    rfl

theorem bit_erode (s : Strategy) (hy : y < r.height) (hx : x < 8 * stride r.width) :
    (sweep s erodeRow r).bit x y = (decide (x < r.width) &&
      (r.bit x y && (decide (0 < x) && r.bit (x - 1) y) && r.bit (x + 1) y &&
        (decide (0 < y) && r.bit x (y - 1)) && r.bit x (y + 1))) := by
  rw [bit_sweep length_erodeRow hy hx]
  congr 1
  by_cases hb : y = 0 ∨ y + 1 = r.height
  · rw [erodeRow_of_border hb, List.getElem?_replicate, if_pos (by omega), Option.map_some,
      Option.getD_some, Byte.pixel_zero]
    rcases hb with rfl | hl
    · simp
    · simp [Raster.bit_of_height_le (Nat.le_of_eq hl.symm)]
  · have h := pixel_erodeByte r (y := y) (k := x / 8) (Nat.mod_lt x (by decide))
    rw [Nat.div_add_mod] at h
    rw [erodeRow_of_interior (by omega) (by omega), List.getElem?_mapIdx, List.getElem?_replicate,
      if_pos (by omega), List.length_replicate, decide_eq_true (by omega : 0 < y), Bool.true_and]
    exact h

/-- **Erosion by bytes is erosion pixel by pixel.** -/
theorem sweep_erode (s : Strategy) (hp : r.PaddingClear) :
    sweep s erodeRow r = r.erodePixelwise := by
  refine sweep_eq_tabulate length_erodeRow fun x y hin => ?_
  rw [bit_erode s hin.2 (Raster.lt_stride_of_lt_width hin.1), decide_eq_true hin.1, Bool.true_and,
    Raster.besides_eq]
  simp only [hp.bit_eq_isSet, List.all_cons, List.all_nil, id_eq, Bool.and_true, Bool.and_assoc]

end Morphology

namespace Raster

open Morphology

variable {r : Raster} {x y : Nat}

theorem all_besides_iff : (r.besides x y).all id = true ↔
    (0 < x ∧ x + 1 < r.width ∧ 0 < y ∧ y + 1 < r.height) ∧
      ∀ q, Point.Adjacent .four ⟨x, y⟩ q → r.isSet q.x q.y = true := by
  simp only [besides_eq, List.all_cons, List.all_nil, id_eq, Bool.and_true, Bool.and_eq_true,
    decide_eq_true_eq]
  constructor
  · rintro ⟨⟨hx, hleft⟩, hright, ⟨hy, habove⟩, hbelow⟩
    refine ⟨⟨hx, (inside_of_isSet hright).1, hy, (inside_of_isSet hbelow).2⟩, ?_⟩
    rintro ⟨x', y'⟩ ha
    rcases Point.adjacent_four_iff.mp ha with ⟨rfl, rfl | hx'⟩ | ⟨rfl, rfl | hy'⟩
    · exact hright
    · rwa [show x' = x - 1 by simp only at hx'; omega]
    · exact hbelow
    · rwa [show y' = y - 1 by simp only at hy'; omega]
  · rintro ⟨⟨hx, -, hy, -⟩, h⟩
    have key : ∀ x' y', Point.Adjacent .four ⟨x, y⟩ ⟨x', y'⟩ → r.isSet x' y' = true :=
      fun x' y' => h ⟨x', y'⟩
    exact ⟨⟨hx, key _ _ (Point.adjacent_four_iff.mpr (.inl ⟨rfl, .inr (Nat.sub_add_cancel hx)⟩))⟩,
      key _ _ (Point.adjacent_four_iff.mpr (.inl ⟨rfl, .inl rfl⟩)),
      ⟨hy, key _ _ (Point.adjacent_four_iff.mpr (.inr ⟨rfl, .inr (Nat.sub_add_cancel hy)⟩))⟩,
      key _ _ (Point.adjacent_four_iff.mpr (.inr ⟨rfl, .inl rfl⟩))⟩

/-- **Erosion keeps the pixels off the border whose neighbours are all set**, on every picture whose
padding is clear, by either strategy: it succeeds, leaves the padding clear and answers, byte for
byte, the picture eroded pixel by pixel. -/
theorem erode_keeps_surrounded (s : Strategy) (hp : r.PaddingClear) (hw : 2 ≤ r.width)
    (hh : 2 ≤ r.height) : ∃ e, r.erodeWith s = .ok e ∧ e.width = r.width ∧ e.height = r.height ∧
      e.PaddingClear ∧
      (∀ p : Point, r.Inside p.x p.y → (e.isSet p.x p.y = true ↔
        (0 < p.x ∧ p.x + 1 < r.width ∧ 0 < p.y ∧ p.y + 1 < r.height) ∧ r.isSet p.x p.y = true ∧
          ∀ q, Point.Adjacent .four p q → r.isSet q.x q.y = true)) ∧
      e = r.erodePixelwise := by
  have he : r.erodeWith s = .ok r.erodePixelwise := by
    unfold erodeWith
    rw [sweep?_ok s erodeRow hw hh, sweep_erode s hp]
  refine ⟨_, he, rfl, rfl, paddingClear_tabulate _, fun p hin => ?_, rfl⟩
  unfold erodePixelwise
  rw [isSet_tabulate, decide_eq_true hin, Bool.true_and, Bool.and_eq_true, all_besides_iff]
  exact and_left_comm

/-- Three rows of sixteen set pixels but one: the bytes meet between two pixels that lose theirs. -/
theorem erode_keeps_surrounded_across_bytes :
    let r : Raster := ⟨16, 3, #[0xff, 0xff, 0xff, 0x7f, 0xff, 0xff], by decide, by decide, by decide⟩
    r.PaddingClear ∧ 2 ≤ r.width ∧ 2 ≤ r.height ∧ ∃ e, r.erodeWith .serial = .ok e ∧
      e.width = 16 ∧ e.height = 3 ∧ e.PaddingClear ∧
      (∀ p : Point, r.Inside p.x p.y → (e.isSet p.x p.y = true ↔
        (0 < p.x ∧ p.x + 1 < 16 ∧ 0 < p.y ∧ p.y + 1 < 3) ∧ r.isSet p.x p.y = true ∧
          ∀ q, Point.Adjacent .four p q → r.isSet q.x q.y = true)) ∧
      e = r.erodePixelwise := by
  intro r
  have hp : r.PaddingClear := by decide
  exact ⟨hp, by decide, by decide, erode_keeps_surrounded .serial hp (by decide) (by decide)⟩

end Raster

end Bitplane
