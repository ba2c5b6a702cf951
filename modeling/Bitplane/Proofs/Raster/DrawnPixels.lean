import Bitplane.Morphology.Pixelwise
import Bitplane.Proofs.Raster.PixelSets
import Bitplane.Source

/-! # Rasters drawn pixel by pixel

The pixels of a picture are written one by one into a blank raster. No write lies beyond the end of
the buffer, none meets the padding, and none undoes another, so what is drawn is what the function
says.

* `drawPixel?_tabulate`: one more pixel drawn.
* `foldlM_drawPixel`, `foldlM_drawRow`: some columns of a row, and some rows.
* `draw?_eq_tabulate`: a picture drawn pixel by pixel is the packed one.
* `dilatePixelwise_drawn`, `erodePixelwise_drawn`, `filterIsolatedPixelwise_drawn`: so are the
  pictures that the operators make pixel by pixel.
* `Pattern.drawCheckerboard_eq`: and the checkerboards. -/

namespace Bitplane

namespace Raster

variable {r : Raster} {f : Nat → Nat → Option Bool} {g h : Nat → Nat → Bool} {x y : Nat}

theorem put_tabulate (hin : r.Inside x y) : (r.tabulate g).put x y true =
    r.tabulate fun x' y' => g x' y' || decide (x' = x ∧ y' = y) := by
  have hin' : (r.tabulate g).Inside x y := hin
  refine eq_of_isSet ((paddingClear_tabulate g).put hin' true) (paddingClear_tabulate _) rfl rfl
    fun y' _ x' _ => ?_
  rw [isSet_put hin', isSet_tabulate, isSet_tabulate]
  by_cases heq : x = x' ∧ y = y'
  · obtain ⟨rfl, rfl⟩ := heq
    simp [hin]
  · have hne : ¬ (x' = x ∧ y' = y) := fun h => heq ⟨h.1.symm, h.2.symm⟩
    rw [if_neg heq, decide_eq_false hne, Bool.or_false]

theorem drawPixel?_tabulate (hin : r.Inside x y) (hf : f x y = some (h x y)) :
    drawPixel? f y (r.tabulate g) x =
      some (r.tabulate fun x' y' => g x' y' || (decide (x' = x ∧ y' = y) && h x' y')) := by
  have hin' : (r.tabulate g).Inside x y := hin
  unfold drawPixel?
  rw [hf, Option.bind_eq_bind, Option.bind_some]
  cases hset : h x y with
  | true =>
    rw [if_pos rfl, put?_eq hin', put_tabulate hin]
    refine congrArg some (tabulate_congr rfl rfl fun x' y' _ => ?_)
    by_cases heq : x' = x ∧ y' = y
    · simp [heq, hset]
    · simp [heq]
  | false =>
    refine congrArg some (tabulate_congr rfl rfl fun x' y' _ => ?_)
    by_cases heq : x' = x ∧ y' = y
    · simp [heq, hset]
    · simp [heq]

/-- **Some columns of a row drawn**: their pixels are added to what was there. -/
theorem foldlM_drawPixel (xs : List Nat) (hxs : ∀ x ∈ xs, r.Inside x y ∧ f x y = some (h x y)) :
    xs.foldlM (drawPixel? f y) (r.tabulate g) =
      some (r.tabulate fun x' y' => g x' y' || (decide (x' ∈ xs ∧ y' = y) && h x' y')) := by
  induction xs generalizing g with
  | nil => exact congrArg some (tabulate_congr rfl rfl fun x' y' _ => by simp)
  | cons x xs ih =>
    obtain ⟨hin, hf⟩ := hxs x List.mem_cons_self
    rw [List.foldlM_cons, drawPixel?_tabulate hin hf, Option.bind_eq_bind, Option.bind_some,
      ih fun x hx => hxs x (List.mem_cons_of_mem _ hx)]
    refine congrArg some (tabulate_congr rfl rfl fun x' y' _ => ?_)
    rw [Bool.or_assoc, ← Bool.and_or_distrib_right, ← Bool.decide_or]
    simp only [List.mem_cons, or_and_right]

theorem foldlM_drawRow (ys : List Nat)
    (hys : ∀ y ∈ ys, ∀ x < r.width, r.Inside x y ∧ f x y = some (h x y)) :
    ys.foldlM (fun out y => (List.range r.width).foldlM (drawPixel? f y) out) (r.tabulate g) =
      some (r.tabulate fun x' y' => g x' y' || (decide (y' ∈ ys) && h x' y')) := by
  induction ys generalizing g with
  | nil => exact congrArg some (tabulate_congr rfl rfl fun x' y' _ => by simp)
  | cons y ys ih =>
    rw [List.foldlM_cons,
      foldlM_drawPixel _ fun x hx => hys y List.mem_cons_self x (List.mem_range.mp hx),
      Option.bind_eq_bind, Option.bind_some, ih fun y hy => hys y (List.mem_cons_of_mem _ hy)]
    refine congrArg some (tabulate_congr rfl rfl fun x' y' hin => ?_)
    rw [Bool.or_assoc, ← Bool.and_or_distrib_right, ← Bool.decide_or]
    simp only [List.mem_range, hin.1, true_and, List.mem_cons]

theorem template_eq_tabulate (r : Raster) : r.template = r.tabulate fun _ _ => false :=
  eq_of_isSet r.paddingClear_template (paddingClear_tabulate _) rfl rfl fun y _ x _ => by
    rw [isSet_template, isSet_tabulate, Bool.and_false]

/-- **A picture drawn pixel by pixel is the packed one**: no write is beyond the end of
the buffer. -/
theorem draw?_eq_tabulate (hf : ∀ x y, r.Inside x y → f x y = some (h x y)) :
    r.draw? f = some (r.tabulate h) := by
  unfold draw?
  rw [template_eq_tabulate, foldlM_drawRow _ fun y hy x hx =>
    ⟨⟨hx, List.mem_range.mp hy⟩, hf x y ⟨hx, List.mem_range.mp hy⟩⟩]
  refine congrArg some (tabulate_congr rfl rfl fun x y hin => ?_)
  rw [decide_eq_true (List.mem_range.mpr hin.2), Bool.true_and, Bool.false_or]

/-! ## The operators pixel by pixel -/

theorem dilatePixelwise_drawn (r : Raster) :
    (r.draw? fun x y => some (r.isSet x y || (r.besides x y).any id)) = some r.dilatePixelwise :=
  draw?_eq_tabulate fun _ _ _ => rfl

theorem erodePixelwise_drawn (r : Raster) :
    (r.draw? fun x y => some (r.isSet x y && (r.besides x y).all id)) = some r.erodePixelwise :=
  draw?_eq_tabulate fun _ _ _ => rfl

theorem filterIsolatedPixelwise_drawn (r : Raster) :
    (r.draw? fun x y => some (r.isSet x y && (r.besides x y).any id)) =
      some r.filterIsolatedPixelwise :=
  draw?_eq_tabulate fun _ _ _ => rfl

end Raster

/-- **A checkerboard drawn pixel by pixel is the packed one**, as long as its sides sum up to a
word. -/
theorem Pattern.drawCheckerboard_eq {width height cell : Nat}
    (hsum : width + height ≤ 0x100000000) :
    drawCheckerboard width height cell = (checkerboard width height cell).map some := by
  unfold drawCheckerboard checkerboard Raster.blank?
  by_cases hc : cell = 0
  · simp only [if_pos hc]
    rfl
  · by_cases hpos : 0 < width ∧ 0 < height
    · simp only [if_neg hc, dif_pos hpos]
      refine congrArg Except.ok (Raster.draw?_eq_tabulate fun x y hin => if_pos ?_)
      have hx := Nat.div_le_self x cell
      have hy := Nat.div_le_self y cell
      have hxw : x < width := hin.1
      have hyh : y < height := hin.2
      omega
    · simp only [if_neg hc, dif_neg hpos]
      rfl

end Bitplane
