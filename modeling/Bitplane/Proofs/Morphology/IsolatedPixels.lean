import Bitplane.Proofs.Morphology.Kernels

/-! # Removal of isolated pixels

This kernel has no table: it shifts the byte itself, lets the pixels of the bytes beside it come in,
and keeps of the byte what the shifted rows and the rows above and below cover.

* `pixel_filterByte`: a pixel of a byte stays if the one to its left or right, above or below is
  set, whichever bytes they lie in.
* `sweep_filter`: so with clear padding the swept picture is the one filtered pixel by pixel, and
  `filterIsolatedWith_eq`: the strategy does not show.
* `isSet_filterIsolatedPixelwise_iff`: the pixels left are the set ones with a set one beside them.
* `filterIsolated_keeps_accompanied`: the removal succeeds on every picture of two rows and columns
  whose padding is clear, and keeps the pixels that have a set neighbour. -/

namespace Bitplane

open Byte (stride pixel)

namespace Morphology

variable {r : Raster} {i k x y : Nat}

theorem pixel_filterByte (r : Raster) (y k : Nat) (hi : i < 8) :
    pixel (filterByte (RowView.of r y) k) i = (r.bit (8 * k + i) y &&
      ((decide (0 < 8 * k + i) && r.bit (8 * k + i - 1) y) || r.bit (8 * k + i + 1) y ||
        (decide (0 < y) && r.bit (8 * k + i) (y - 1)) || r.bit (8 * k + i) (y + 1))) := by
  rw [← pixel_left r y k hi, ← pixel_right r y k hi, ← pixel_above r y k hi,
    ← pixel_below r y k hi, ← pixel_current r y k hi]
  unfold filterByte
  simp only [Byte.pixel_and, Byte.pixel_or]
  congr 1
  ac_rfl

theorem bit_filter (s : Strategy) (hy : y < r.height) (hx : x < 8 * stride r.width) :
    (sweep s filterRow r).bit x y = (decide (x < r.width) &&
      (r.bit x y && ((decide (0 < x) && r.bit (x - 1) y) || r.bit (x + 1) y ||
        (decide (0 < y) && r.bit x (y - 1)) || r.bit x (y + 1)))) := by
  have h := pixel_filterByte r y (x / 8) (Nat.mod_lt x (by decide))
  rw [Nat.div_add_mod] at h
  rw [← h]
  exact bit_sweep_mapIdx filterByte hy hx

/-- **The removal by bytes is the removal pixel by pixel.** -/
theorem sweep_filter (s : Strategy) (hp : r.PaddingClear) :
    sweep s filterRow r = r.filterIsolatedPixelwise := by
  have hlen : ∀ v dst, (filterRow v dst).length = dst.length := fun _ _ => List.length_mapIdx
  refine sweep_eq_tabulate hlen fun x y hin => ?_
  rw [bit_filter s hin.2 (Raster.lt_stride_of_lt_width hin.1), decide_eq_true hin.1,
    Bool.true_and, Raster.besides_eq]
  simp only [hp.bit_eq_isSet, List.any_cons, List.any_nil, id_eq, Bool.or_false, Bool.or_assoc]

end Morphology

namespace Raster

open Morphology

variable {r : Raster} {p : Point}

theorem filterIsolatedWith_eq (s : Strategy) (hp : r.PaddingClear) (hw : 2 ≤ r.width)
    (hh : 2 ≤ r.height) : r.filterIsolatedWith s = .ok r.filterIsolatedPixelwise := by
  unfold filterIsolatedWith
  rw [sweep?_ok s filterRow hw hh, sweep_filter s hp]

/-- **The removal keeps the pixels with a set one beside them.** -/
theorem isSet_filterIsolatedPixelwise_iff : r.filterIsolatedPixelwise.isSet p.x p.y = true ↔
    r.isSet p.x p.y = true ∧ ∃ q, Point.Adjacent .four p q ∧ r.isSet q.x q.y = true := by
  have hneighbours : (∃ q ∈ p.neighbours .four r.width r.height, r.isSet q.x q.y = true) ↔
      ∃ q, Point.Adjacent .four p q ∧ r.isSet q.x q.y = true := by
    refine exists_congr fun q => and_congr_left fun hq => ?_
    rw [Point.mem_neighbours_iff]
    exact and_iff_left (inside_of_isSet hq)
  unfold filterIsolatedPixelwise
  rw [isSet_tabulate, Bool.and_eq_true, Bool.and_eq_true, any_besides_iff, hneighbours,
    decide_eq_true_iff]
  exact and_iff_right_of_imp fun h => inside_of_isSet h.1

/-- **The removal of isolated pixels keeps the pixels that have a set neighbour**, on every picture
whose padding is clear, by either strategy: it succeeds, leaves the padding clear and answers, byte
for byte, the picture filtered pixel by pixel. -/
theorem filterIsolated_keeps_accompanied (s : Strategy) (hp : r.PaddingClear) (hw : 2 ≤ r.width)
    (hh : 2 ≤ r.height) : ∃ f, r.filterIsolatedWith s = .ok f ∧ f.width = r.width ∧
      f.height = r.height ∧ f.PaddingClear ∧
      (∀ p : Point, r.Inside p.x p.y → (f.isSet p.x p.y = true ↔ r.isSet p.x p.y = true ∧
        ∃ q ∈ p.neighbours .four r.width r.height, r.isSet q.x q.y = true)) ∧
      f = r.filterIsolatedPixelwise := by
  refine ⟨_, filterIsolatedWith_eq s hp hw hh, rfl, rfl, paddingClear_tabulate _, fun p hin => ?_,
    rfl⟩
  unfold filterIsolatedPixelwise
  rw [isSet_tabulate, decide_eq_true hin, Bool.true_and, Bool.and_eq_true, any_besides_iff]

/-- Two pixels side by side in different bytes, and one alone in the last row, which is
visited first. -/
theorem filterIsolated_keeps_accompanied_across_bytes :
    let r : Raster := ⟨9, 3, #[0x01, 0x80, 0x00, 0x00, 0x20, 0x00], by decide, by decide, by decide⟩
    let s : Strategy := .parallel ⟨[2, 0]⟩
    r.PaddingClear ∧ 2 ≤ r.width ∧ 2 ≤ r.height ∧ ∃ f, r.filterIsolatedWith s = .ok f ∧
      f.width = 9 ∧ f.height = 3 ∧ f.PaddingClear ∧
      (∀ p : Point, r.Inside p.x p.y → (f.isSet p.x p.y = true ↔ r.isSet p.x p.y = true ∧
        ∃ q ∈ p.neighbours .four 9 3, r.isSet q.x q.y = true)) ∧
      f = r.filterIsolatedPixelwise := by
  intro r s
  have hp : r.PaddingClear := by decide
  exact ⟨hp, by decide, by decide,
    filterIsolated_keeps_accompanied s hp (by decide) (by decide)⟩

end Raster

end Bitplane
