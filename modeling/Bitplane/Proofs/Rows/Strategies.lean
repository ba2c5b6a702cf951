import Bitplane.Proofs.Morphology.Erosion
import Bitplane.Proofs.Region.RunNumbers
import Bitplane.Region.Labeling

/-! # Strategies that do not show

A pass in a strategy visits every row once, and its calls keep the length of a row. So whichever
rows a parallel pass takes first, it leaves what the pass from top to bottom leaves.

* `Raster.update_eq_update`, `LabelGrid.update_eq_update`: of passes over pixels and over labels.
* `Morphology.sweep_eq_sweep`: so of the operators by rows.
* `Region.numberRuns_eq_numberRuns`: and of the seed.
* `Raster.label_withStrategy`: labels do not depend on the strategy, in whatever order it takes the
  rows. -/

namespace Bitplane

open Byte (stride)

variable {r : Raster} {g : LabelGrid}

theorem Raster.update_eq_update {f : Nat → List UInt8 → List UInt8}
    (hf : Rows.KeepsLength (stride r.width) r.height f) (s t : Strategy) :
    r.update s f = r.update t f := by
  rw [← fullRows_bytes r] at hf
  have hbytes : Rows.update s (stride r.width) f r.bytes =
      Rows.update t (stride r.width) f r.bytes :=
    Rows.update_eq_update (Byte.stride_pos r.width_pos) hf t
  unfold update
  congr

theorem LabelGrid.update_eq_update {f : Nat → List Nat → List Nat}
    (hf : Rows.KeepsLength g.width g.height f) (s t : Strategy) : g.update s f = g.update t f := by
  rw [← fullRows_labels g] at hf
  have hlabels : Rows.update s g.width f g.labels = Rows.update t g.width f g.labels :=
    Rows.update_eq_update g.width_pos hf t
  unfold update
  congr

/-! ## Operators by rows -/

namespace Morphology

theorem sweep_eq_sweep {kernel : Kernel} (hk : ∀ v dst, (kernel v dst).length = dst.length)
    (s t : Strategy) (r : Raster) : sweep s kernel r = sweep t kernel r :=
  Raster.update_eq_update (fun y _ row hrow => by rw [Byte.length_maskLast, hk, hrow]) s t

theorem sweep?_eq_sweep? {kernel : Kernel} (hk : ∀ v dst, (kernel v dst).length = dst.length)
    (s t : Strategy) (r : Raster) : sweep? s kernel r = sweep? t kernel r := by
  unfold sweep?
  rw [sweep_eq_sweep hk s t]

end Morphology

namespace Raster

theorem dilateWith_eq_dilate (s : Strategy) (r : Raster) : r.dilateWith s = r.dilate :=
  Morphology.sweep?_eq_sweep? (fun _ _ => List.length_mapIdx) s _ r

theorem erodeWith_eq_erode (s : Strategy) (r : Raster) : r.erodeWith s = r.erode :=
  Morphology.sweep?_eq_sweep? Morphology.length_erodeRow s _ r

theorem filterIsolatedWith_eq_filterIsolated (s : Strategy) (r : Raster) :
    r.filterIsolatedWith s = r.filterIsolated :=
  Morphology.sweep?_eq_sweep? (fun _ _ => List.length_mapIdx) s _ r

end Raster

/-! ## Labels -/

theorem Region.numberRuns_eq_numberRuns (s t : Strategy) (g : LabelGrid) :
    numberRuns s g = numberRuns t g := by
  have hnumber : ∀ offsets : Array Nat,
      (g.update s fun y row => numberRow (offsets[y]?.getD 0) false row) =
        g.update t fun y row => numberRow (offsets[y]?.getD 0) false row :=
    fun _ => LabelGrid.update_eq_update (fun y _ row hrow => by rw [length_numberRow, hrow]) s t
  unfold numberRuns
  simp only [Rows.gather_eq, hnumber]

namespace Raster

open Region

theorem labelSource_withStrategy (o : Options) (s : Strategy) (r : Raster) :
    r.labelSource (o.withStrategy s) = r.labelSource o := by
  unfold labelSource Options.withStrategy
  rw [filterIsolatedWith_eq_filterIsolated, filterIsolatedWith_eq_filterIsolated]

/-- **The strategy of a labeling does not show**: whichever rows its passes take first, it refuses
the same pictures, and finds the same labels and the same number of components. -/
theorem label_withStrategy (o : Options) (s : Strategy) (r : Raster) :
    r.label (o.withStrategy s) = r.label o := by
  have hlookUp : ∀ (table : Array Nat) (g : LabelGrid),
      (g.update s fun _ row => row.map fun l => table[l]?.getD 0) =
        g.update o.strategy fun _ row => row.map fun l => table[l]?.getD 0 :=
    fun table g =>
      LabelGrid.update_eq_update (fun y _ row hrow => by rw [List.length_map, hrow]) s _
  unfold label
  rw [labelSource_withStrategy]
  simp only [Options.withStrategy, numberRuns_eq_numberRuns s o.strategy, hlookUp]

end Raster

end Bitplane
