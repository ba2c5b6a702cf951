import Bitplane.Morphology.Cross
import Bitplane.Morphology.Pixelwise
import Bitplane.Raster.Pixels
import Bitplane.Region.Component

/-! # Rows of bytes as rows of pixels

A kernel sees three rows of bytes and makes the bytes of one. Here its parts are read as pixels:
column `8k + i` is pixel `i` of byte `k`.

* `RowView.of_cases`: the three places of a row, with the rows beside it.
* `pixel_current`, `pixel_above`, `pixel_below`: the bytes of the view are pixels of the picture,
  those of a missing row clear.
* `pixel_left`, `pixel_right`: a byte shifted by one, with the pixel that comes in from the next
  byte, is the row shifted by one, over byte boundaries and clear beyond the ends of the row.
* `bit_sweep`: a pixel of a swept picture is one of the kernel's row, unless it is padding.
* `any_besides_iff`: the four pixels beside one are its neighbours in the picture. -/

namespace Bitplane

open Byte (stride pixel)

namespace Raster

variable {r : Raster} {i k x y : Nat}

/-! ## Pixels beyond the picture -/

theorem bit_of_height_le (hy : r.height ≤ y) : r.bit x y = false := by
  unfold bit
  rw [getElem?_row]
  split
  · have := Nat.mul_le_mul_left (stride r.width) hy
    rw [Array.getElem?_eq_none (by rw [r.size_bytes]; omega)]
    rfl
  · rfl

theorem bit_of_stride_le (hx : 8 * stride r.width ≤ x) : r.bit x y = false := by
  unfold bit
  rw [getElem?_row, if_neg (by omega)]
  rfl

theorem PaddingClear.bit_eq_isSet (h : r.PaddingClear) (x y : Nat) : r.bit x y = r.isSet x y := by
  rw [isSet_eq]
  by_cases hin : r.Inside x y
  · rw [decide_eq_true hin, Bool.true_and]
  · rw [decide_eq_false hin, Bool.false_and]
    rcases Nat.lt_or_ge y r.height with hy | hy
    · rcases Nat.lt_or_ge x (8 * stride r.width) with hx | hx
      · exact paddingClear_iff.mp h y hy x (Nat.not_lt.mp fun hc => hin ⟨hc, hy⟩) hx
      · exact bit_of_stride_le hx
    · exact bit_of_height_le hy

end Raster

namespace Morphology

open RowView (byteAt byteAt?)

variable {r : Raster} {s : Strategy} {b : UInt8} {i k x y : Nat}

/-! ## The bytes of a view -/

theorem pixel_byteAt (r : Raster) (y k : Nat) (hi : i < 8) :
    pixel (byteAt (r.row y).toArray k) i = r.bit (8 * k + i) y := by
  unfold byteAt Raster.bit
  rw [List.getElem?_toArray, show (8 * k + i) / 8 = k by omega, show (8 * k + i) % 8 = i by omega]
  cases (r.row y)[k]? with
  | none => exact Byte.pixel_zero i
  | some b => rfl

theorem pixel_current (r : Raster) (y k : Nat) (hi : i < 8) :
    pixel (byteAt (RowView.of r y).current k) i = r.bit (8 * k + i) y :=
  pixel_byteAt r y k hi

/-- **A row lies at the top, at the bottom or between**, and its view has the rows beside it. -/
theorem RowView.of_cases (r : Raster) (y : Nat) :
    (y = 0 ∧
      RowView.of r y = ⟨.top, none, (r.row y).toArray, some (r.row (y + 1)).toArray⟩) ∨
    (0 < y ∧ y + 1 = r.height ∧
      RowView.of r y = ⟨.bottom, some (r.row (y - 1)).toArray, (r.row y).toArray, none⟩) ∨
    (0 < y ∧ y + 1 ≠ r.height ∧
      RowView.of r y = ⟨.interior, some (r.row (y - 1)).toArray, (r.row y).toArray,
        some (r.row (y + 1)).toArray⟩) := by
  unfold RowView.of RowPlace.of
  by_cases h0 : y = 0
  · exact .inl ⟨h0, by simp only [if_pos h0]⟩
  · by_cases hlast : y + 1 = r.height
    · exact .inr (.inl ⟨by omega, hlast, by simp only [if_neg h0, if_pos hlast]⟩)
    · exact .inr (.inr ⟨by omega, hlast, by simp only [if_neg h0, if_neg hlast]⟩)

theorem pixel_above (r : Raster) (y k : Nat) (hi : i < 8) :
    pixel (byteAt? (RowView.of r y).above k) i = (decide (0 < y) && r.bit (8 * k + i) (y - 1)) := by
  rcases RowView.of_cases r y with ⟨rfl, hv⟩ | ⟨h0, -, hv⟩ | ⟨h0, -, hv⟩ <;> rw [hv]
  · exact Byte.pixel_zero i
  · rw [decide_eq_true h0, Bool.true_and]
    exact pixel_byteAt r (y - 1) k hi
  · rw [decide_eq_true h0, Bool.true_and]
    exact pixel_byteAt r (y - 1) k hi

theorem pixel_below (r : Raster) (y k : Nat) (hi : i < 8) :
    pixel (byteAt? (RowView.of r y).below k) i = r.bit (8 * k + i) (y + 1) := by
  rcases RowView.of_cases r y with ⟨-, hv⟩ | ⟨-, hlast, hv⟩ | ⟨-, -, hv⟩ <;> rw [hv]
  · exact pixel_byteAt r (y + 1) k hi
  · rw [Raster.bit_of_height_le (Nat.le_of_eq hlast.symm)]
    exact Byte.pixel_zero i
  · exact pixel_byteAt r (y + 1) k hi

/-! ## Pixels that come in from the next byte -/

/-- The first pixel of a byte, moved to the last place. -/
theorem pixel_shiftRight_seven (b : UInt8) (hi : i < 8) :
    pixel (b >>> 7) i = (decide (i = 7) && pixel b 0) := by
  have h7 : (7 : UInt8).toNat % 8 = 7 := rfl
  rw [Byte.pixel_eq_testBit, Byte.pixel_eq_testBit, UInt8.toNat_shiftRight, h7,
    Nat.testBit_shiftRight, Nat.mod_eq_of_lt hi]
  by_cases h : i = 7
  · simp [h]
  · rw [decide_eq_false h, Bool.false_and]
    exact Nat.testBit_lt_two_pow
      (Nat.lt_of_lt_of_le b.toNat_lt (Nat.pow_le_pow_right (by decide) (by omega)))

/-- The last pixel of a byte, moved to the first place. -/
theorem pixel_low_shiftLeft (b : UInt8) (hi : i < 8) :
    pixel ((b &&& 0x01) <<< 7) i = (decide (i = 0) && pixel b 7) := by
  have h : ∀ v : Bool, ∀ i < 8, pixel (v.toUInt8 <<< 7) i = (decide (i = 0) && v) := by decide
  have hlow : b &&& 0x01 = (pixel b 7).toUInt8 := by
    refine Byte.eq_of_pixel fun j hj => ?_
    have h1 : ∀ v : Bool, ∀ j < 8, pixel v.toUInt8 j = (decide (j = 7) && v) := by decide
    have h2 : ∀ j < 8, pixel 0x01 j = decide (j = 7) := by decide
    rw [Byte.pixel_and, h1 _ j hj, h2 j hj]
    by_cases hj7 : j = 7 <;> simp [hj7]
  rw [hlow, h _ i hi]

/-- **The row shifted by one to the left**: every pixel is its right neighbour. -/
theorem pixel_right (r : Raster) (y k : Nat) (hi : i < 8) :
    (pixel (byteAt (RowView.of r y).current k <<< 1) i || pixel ((RowView.of r y).fromRight k) i) =
      r.bit (8 * k + i + 1) y := by
  unfold RowView.fromRight
  rw [Byte.pixel_shiftLeft _ hi, pixel_shiftRight_seven _ hi]
  by_cases h : i = 7
  · rw [if_pos h, decide_eq_true h, Bool.false_or, Bool.true_and,
      pixel_current r y (k + 1) (by decide)]
    congr 1
    omega
  · rw [if_neg h, decide_eq_false h, Bool.false_and, Bool.or_false, pixel_current r y k (by omega)]
    rfl

/-- **The row shifted by one to the right**: every pixel is its left neighbour. -/
theorem pixel_left (r : Raster) (y k : Nat) (hi : i < 8) :
    (pixel (byteAt (RowView.of r y).current k >>> 1) i || pixel ((RowView.of r y).fromLeft k) i) =
      (decide (0 < 8 * k + i) && r.bit (8 * k + i - 1) y) := by
  unfold RowView.fromLeft
  rw [Byte.pixel_shiftRight _ hi]
  by_cases h : i = 0
  · rw [if_pos h, Bool.false_or]
    by_cases hk : k = 0
    · rw [if_pos hk, Byte.pixel_zero, decide_eq_false (by omega), Bool.false_and]
    · rw [if_neg hk, pixel_low_shiftLeft _ hi, decide_eq_true h, Bool.true_and,
        pixel_current r y (k - 1) (by decide), decide_eq_true (by omega), Bool.true_and]
      congr 1
      omega
  · have hlast : pixel (if k = 0 then 0 else (byteAt (RowView.of r y).current (k - 1) &&& 0x01) <<< 7) i
        = false := by
      split
      · exact Byte.pixel_zero i
      · rw [pixel_low_shiftLeft _ hi, decide_eq_false h, Bool.false_and]
    rw [if_neg h, hlast, Bool.or_false, pixel_current r y k (by omega), decide_eq_true (by omega),
      Bool.true_and]
    congr 1
    omega

/-! ## Sweeps -/

theorem bit_sweep {kernel : Kernel} (hk : ∀ v dst, (kernel v dst).length = dst.length)
    (hy : y < r.height) (hx : x < 8 * stride r.width) : (sweep s kernel r).bit x y =
      (decide (x < r.width) &&
        (((kernel (RowView.of r y) (List.replicate (stride r.width) 0))[x / 8]?).map
          (pixel · (x % 8))).getD false) := by
  have hkeep : Rows.KeepsLength (stride r.template.width) r.template.height fun y dst =>
      Byte.maskLast r.paddingMask (kernel (RowView.of r y) dst) := by
    intro y _ row hrow
    rw [Byte.length_maskLast, hk, hrow]
  unfold sweep
  rw [Raster.bit_update hkeep hy, Raster.row_template hy]
  exact Raster.pixel_maskLast (by rw [hk, List.length_replicate]) hx

theorem bit_sweep_mapIdx (f : RowView → Nat → UInt8) (hy : y < r.height)
    (hx : x < 8 * stride r.width) :
    (sweep s (fun v dst => dst.mapIdx fun k _ => f v k) r).bit x y =
      (decide (x < r.width) && pixel (f (RowView.of r y) (x / 8)) (x % 8)) := by
  rw [bit_sweep (fun v dst => List.length_mapIdx) hy hx, List.getElem?_mapIdx,
    List.getElem?_replicate, if_pos (by omega)]
  rfl

theorem paddingClear_sweep {kernel : Kernel} (hk : ∀ v dst, (kernel v dst).length = dst.length)
    (s : Strategy) (r : Raster) : (sweep s kernel r).PaddingClear := by
  refine Raster.paddingClear_iff.mpr fun y hy x hw hx => ?_
  have hw' : r.width ≤ x := hw
  rw [bit_sweep (r := r) hk hy hx, decide_eq_false (Nat.not_lt.mpr hw'), Bool.false_and]

/-- **A swept picture is the raster of the pixels that its kernel makes.** -/
theorem sweep_eq_tabulate {kernel : Kernel} (hk : ∀ v dst, (kernel v dst).length = dst.length)
    {f : Nat → Nat → Bool}
    (h : ∀ x y, r.Inside x y → (sweep s kernel r).bit x y = f x y) :
    sweep s kernel r = r.tabulate f := by
  refine Raster.eq_of_isSet (paddingClear_sweep hk s r) (Raster.paddingClear_tabulate f) rfl rfl
    fun y hy x hx => ?_
  have hin : r.Inside x y := ⟨hx, hy⟩
  have hswept : (sweep s kernel r).Inside x y := hin
  rw [Raster.isSet_tabulate, decide_eq_true hin, Bool.true_and, Raster.isSet_of_inside hswept,
    h x y hin]

theorem sweep?_ok (s : Strategy) (kernel : Kernel) (hw : 2 ≤ r.width) (hh : 2 ≤ r.height) :
    sweep? s kernel r = .ok (sweep s kernel r) := by
  unfold sweep?
  rw [checkSides_ok hw hh]
  rfl

end Morphology

/-! ## Pixels beside a pixel -/

namespace Raster

variable {r : Raster} {x y : Nat}

theorem besides_eq (r : Raster) (x y : Nat) : r.besides x y =
    [decide (0 < x) && r.isSet (x - 1) y, r.isSet (x + 1) y, decide (0 < y) && r.isSet x (y - 1),
      r.isSet x (y + 1)] := by
  have hx : (0 ≤ (x : Int) + -1) ↔ 0 < x := by omega
  have hy : (0 ≤ (y : Int) + -1) ↔ 0 < y := by omega
  have h1 : ((x : Int) + -1).toNat = x - 1 := by omega
  have h2 : ((y : Int) + -1).toNat = y - 1 := by omega
  have h3 : ((x : Int) + 1).toNat = x + 1 := by omega
  have h4 : ((y : Int) + 1).toNat = y + 1 := by omega
  have h5 : 0 ≤ (x : Int) + 1 := by omega
  have h6 : 0 ≤ (y : Int) + 1 := by omega
  simp only [besides, cross, List.map_cons, List.map_nil, isSetAt, hx, hy, h1, h2, h3, h4, h5, h6,
    Int.add_zero, Int.natCast_nonneg, Int.toNat_natCast, and_true, true_and, if_true]
  by_cases hx0 : 0 < x <;> by_cases hy0 : 0 < y <;> simp [hx0, hy0]

theorem any_besides_iff : (r.besides x y).any id = true ↔
    ∃ q ∈ (Point.mk x y).neighbours .four r.width r.height, r.isSet q.x q.y = true := by
  simp only [besides_eq, List.any_cons, List.any_nil, id_eq, Bool.or_false, Bool.or_eq_true,
    Bool.and_eq_true, decide_eq_true_eq]
  constructor
  · have key : ∀ q : Point, Point.Adjacent .four ⟨x, y⟩ q → r.isSet q.x q.y = true →
        ∃ q ∈ (Point.mk x y).neighbours .four r.width r.height, r.isSet q.x q.y = true :=
      fun q ha hq => ⟨q, Point.mem_neighbours_iff.mpr ⟨ha, inside_of_isSet hq⟩, hq⟩
    rintro (⟨h0, h⟩ | h | ⟨h0, h⟩ | h)
    · exact key ⟨x - 1, y⟩ (Point.adjacent_four_iff.mpr (.inl ⟨rfl, .inr (Nat.sub_add_cancel h0)⟩)) h
    · exact key ⟨x + 1, y⟩ (Point.adjacent_four_iff.mpr (.inl ⟨rfl, .inl rfl⟩)) h
    · exact key ⟨x, y - 1⟩ (Point.adjacent_four_iff.mpr (.inr ⟨rfl, .inr (Nat.sub_add_cancel h0)⟩)) h
    · exact key ⟨x, y + 1⟩ (Point.adjacent_four_iff.mpr (.inr ⟨rfl, .inl rfl⟩)) h
  · rintro ⟨⟨x', y'⟩, hq, hset⟩
    have ha := Point.adjacent_four_iff.mp (Point.mem_neighbours_iff.mp hq).1
    simp only at ha hset
    rcases ha with ⟨rfl, rfl | rfl⟩ | ⟨rfl, rfl | rfl⟩
    · exact .inr (.inl hset)
    · exact .inl ⟨by omega, hset⟩
    · exact .inr (.inr (.inr hset))
    · exact .inr (.inr (.inl ⟨by omega, hset⟩))

end Raster

end Bitplane
