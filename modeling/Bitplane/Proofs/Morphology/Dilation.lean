import Bitplane.Proofs.Morphology.Kernels

/-! # Dilation

* `pixel_dilateByte`: a pixel of a dilated byte is set if it, the pixel to its left or right, above
  or below is, whichever bytes they lie in.
* `sweep_dilate`: so with clear padding the swept picture is the one dilated pixel by pixel.
* `dilate_sets_neighbours`: dilation succeeds on every picture of two rows and columns whose padding
  is clear, and sets the pixels that are set or have a set neighbour. -/

namespace Bitplane

open Byte (stride pixel)

open Morphology

namespace Morphology

variable {r : Raster} {i k x y : Nat}

theorem pixel_dilateByte (r : Raster) (y k : Nat) (hi : i < 8) :
    pixel (dilateByte (RowView.of r y) k) i = (r.bit (8 * k + i) y ||
      ((decide (0 < 8 * k + i) && r.bit (8 * k + i - 1) y) || r.bit (8 * k + i + 1) y ||
        (decide (0 < y) && r.bit (8 * k + i) (y - 1)) || r.bit (8 * k + i) (y + 1))) := by
  rw [← pixel_left r y k hi, ← pixel_right r y k hi, ← pixel_above r y k hi,
    ← pixel_below r y k hi, ← pixel_current r y k hi]
  unfold dilateByte
  rw [entry_grow, growByte]
  simp only [Byte.pixel_or]
  ac_rfl

theorem bit_dilate (s : Strategy) (hy : y < r.height) (hx : x < 8 * stride r.width) :
    (sweep s dilateRow r).bit x y = (decide (x < r.width) &&
      (r.bit x y || ((decide (0 < x) && r.bit (x - 1) y) || r.bit (x + 1) y ||
        (decide (0 < y) && r.bit x (y - 1)) || r.bit x (y + 1)))) := by
  have h := pixel_dilateByte r y (x / 8) (Nat.mod_lt x (by decide))
  rw [Nat.div_add_mod] at h
  rw [← h]
  exact bit_sweep_mapIdx dilateByte hy hx

theorem isSet_dilatePixelwise (h : r.Inside x y) :
    r.dilatePixelwise.isSet x y = (r.isSet x y || (r.besides x y).any id) := by
  unfold Raster.dilatePixelwise
  rw [Raster.isSet_tabulate, decide_eq_true h, Bool.true_and]

/-- **Dilation by bytes is dilation pixel by pixel.** -/
theorem sweep_dilate (s : Strategy) (hp : r.PaddingClear) :
    sweep s dilateRow r = r.dilatePixelwise := by
  have hlen : ∀ v dst, (dilateRow v dst).length = dst.length := fun _ _ => List.length_mapIdx
  refine sweep_eq_tabulate hlen fun x y hin => ?_
  rw [bit_dilate s hin.2 (Raster.lt_stride_of_lt_width hin.1), decide_eq_true hin.1,
    Bool.true_and, Raster.besides_eq]
  simp only [hp.bit_eq_isSet, List.any_cons, List.any_nil, id_eq, Bool.or_false, Bool.or_assoc]

end Morphology

namespace Raster

variable {r : Raster}

/-- **Dilation sets the pixels that are set or have a set neighbour**, on every picture whose
padding is clear, by either strategy: it succeeds, leaves the padding clear and answers, byte for
byte, the picture dilated pixel by pixel. -/
theorem dilate_sets_neighbours (s : Strategy) (hp : r.PaddingClear) (hw : 2 ≤ r.width)
    (hh : 2 ≤ r.height) : ∃ d, r.dilateWith s = .ok d ∧ d.width = r.width ∧ d.height = r.height ∧
      d.PaddingClear ∧
      (∀ p : Point, r.Inside p.x p.y → (d.isSet p.x p.y = true ↔ r.isSet p.x p.y = true ∨
        ∃ q ∈ p.neighbours .four r.width r.height, r.isSet q.x q.y = true)) ∧
      d = r.dilatePixelwise := by
  have hd : r.dilateWith s = .ok r.dilatePixelwise := by
    unfold dilateWith
    rw [sweep?_ok s dilateRow hw hh, sweep_dilate s hp]
  refine ⟨_, hd, rfl, rfl, paddingClear_tabulate _, fun p hin => ?_, rfl⟩
  rw [isSet_dilatePixelwise hin, Bool.or_eq_true, any_besides_iff]

/-- One pixel at the end of a byte, in a picture with seven pixels of padding. -/
theorem dilate_sets_neighbours_across_bytes :
    let r : Raster := ⟨9, 2, #[0x01, 0x00, 0x00, 0x00], by decide, by decide, by decide⟩
    r.PaddingClear ∧ 2 ≤ r.width ∧ 2 ≤ r.height ∧ ∃ d, r.dilateWith (.parallel ⟨[1]⟩) = .ok d ∧
      d.width = 9 ∧ d.height = 2 ∧ d.PaddingClear ∧
      (∀ p : Point, r.Inside p.x p.y → (d.isSet p.x p.y = true ↔ r.isSet p.x p.y = true ∨
        ∃ q ∈ p.neighbours .four 9 2, r.isSet q.x q.y = true)) ∧
      d = r.dilatePixelwise := by
  intro r
  have hp : r.PaddingClear := by decide
  exact ⟨hp, by decide, by decide, dilate_sets_neighbours (.parallel ⟨[1]⟩) hp (by decide) (by decide)⟩

end Raster

end Bitplane
