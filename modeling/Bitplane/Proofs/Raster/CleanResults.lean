import Bitplane.Proofs.Morphology.Erosion
import Bitplane.Proofs.Raster.RoundTrip
import Bitplane.Source

/-! # What every maker and operator leaves clear

Only a write beyond the picture sets padding. Everything else answers rasters with clear padding,
and the operators on one or two rasters answer rasters of their operands' size.

* `CleanAs c r`: the padding of `c` is clear and its size is that of `r`.
* `combine_eq_of_isSet`: a clean picture is told to be a combination by its pixels.
* `cleanAs_sweep`, `cleanAs_combine`, `cleanAs_invert`, `cleanAs_put`: the primitive operators, and
  from them the compositions.
* `paddingClear_build`: whatever the source. -/

namespace Bitplane

open Morphology (Kernel sweep?)

namespace Raster

variable {r a b c : Raster} {op : Combination} {s : Strategy} {x y : Nat}

/-- **The padding is clear and the size is that of `r`.** -/
structure CleanAs (c r : Raster) : Prop where
  width_eq : c.width = r.width
  height_eq : c.height = r.height
  paddingClear : c.PaddingClear

theorem CleanAs.size_eq (hc : c.CleanAs r) : c.size = r.size := Prod.ext hc.width_eq hc.height_eq

theorem CleanAs.trans (hcb : c.CleanAs b) (hba : b.CleanAs a) : c.CleanAs a where
  width_eq := hcb.width_eq.trans hba.width_eq
  height_eq := hcb.height_eq.trans hba.height_eq
  paddingClear := hcb.paddingClear

theorem PaddingClear.cleanAs (hp : r.PaddingClear) : r.CleanAs r := ⟨rfl, rfl, hp⟩

theorem cleanAs_tabulate (r : Raster) (f : Nat → Nat → Bool) : (r.tabulate f).CleanAs r :=
  ⟨rfl, rfl, paddingClear_tabulate f⟩

theorem cleanAs_template (r : Raster) : r.template.CleanAs r := ⟨rfl, rfl, r.paddingClear_template⟩

theorem cleanAs_clearPadding (r : Raster) : r.clearPadding.CleanAs r :=
  ⟨rfl, rfl, r.paddingClear_clearPadding⟩

theorem cleanAs_invert (r : Raster) : r.invert.CleanAs r :=
  r.invert_eq_tabulate ▸ r.cleanAs_tabulate _

theorem cleanAs_put (hp : r.PaddingClear) (hin : r.Inside x y) (v : Bool) :
    (r.put x y v).CleanAs r :=
  ⟨rfl, rfl, hp.put hin v⟩

/-! ## Writers -/

theorem cleanAs_set (hp : r.PaddingClear) {v : Bool} (hc : r.set? x y v = .ok c) : c.CleanAs r := by
  rw [set?_eq] at hc
  split_ifs at hc with hx hy
  obtain rfl := Except.ok.inj hc
  exact cleanAs_put hp ⟨not_le.mp hx, not_le.mp hy⟩ v

/-! ## Combinations and sweeps -/

theorem cleanAs_combine (ha : a.PaddingClear) (hb : b.PaddingClear) (hc : combine op a b = .ok c) :
    c.CleanAs a ∧ c.CleanAs b := by
  by_cases hs : a.width = b.width ∧ a.height = b.height
  · rw [combine_eq_tabulate op ha hb hs.1 hs.2] at hc
    obtain rfl := Except.ok.inj hc
    exact ⟨a.cleanAs_tabulate _, hs.1, hs.2, paddingClear_tabulate _⟩
  · rw [combine_error op hs] at hc
    cases hc

/-- **A clean picture is the combination of two** if its pixels are the combined ones. -/
theorem combine_eq_of_isSet (ha : a.CleanAs r) (hb : b.CleanAs r) (hc : c.CleanAs r)
    (h : ∀ x y, r.Inside x y → c.isSet x y = op.onPixels (a.isSet x y) (b.isSet x y)) :
    combine op a b = .ok c := by
  have hw := ha.width_eq.trans hb.width_eq.symm
  have hh := ha.height_eq.trans hb.height_eq.symm
  rw [combine_eq_tabulate op ha.paddingClear hb.paddingClear hw hh,
    ← tabulate_isSet hc.paddingClear]
  refine congrArg Except.ok (tabulate_congr (ha.width_eq.trans hc.width_eq.symm)
    (ha.height_eq.trans hc.height_eq.symm) fun x y hin => (h x y ?_).symm)
  exact ⟨ha.width_eq ▸ hin.1, ha.height_eq ▸ hin.2⟩

theorem cleanAs_sweep {kernel : Kernel} (hc : sweep? s kernel r = .ok c)
    (hk : ∀ v dst, (kernel v dst).length = dst.length) : c.CleanAs r := by
  obtain ⟨-, -, hsweep⟩ := exists_of_bind_ok hc
  obtain rfl := Except.ok.inj hsweep
  exact ⟨rfl, rfl, Morphology.paddingClear_sweep hk s r⟩

theorem cleanAs_dilateWith (hc : r.dilateWith s = .ok c) : c.CleanAs r :=
  cleanAs_sweep hc fun _ _ => List.length_mapIdx

theorem cleanAs_erodeWith (hc : r.erodeWith s = .ok c) : c.CleanAs r :=
  cleanAs_sweep hc Morphology.length_erodeRow

theorem cleanAs_filterIsolatedWith (hc : r.filterIsolatedWith s = .ok c) : c.CleanAs r :=
  cleanAs_sweep hc fun _ _ => List.length_mapIdx

theorem cleanAs_opening (hc : r.opening = .ok c) : c.CleanAs r := by
  obtain ⟨e, he, hd⟩ := exists_of_bind_ok hc
  exact (cleanAs_dilateWith hd).trans (cleanAs_erodeWith he)

theorem cleanAs_closing (hc : r.closing = .ok c) : c.CleanAs r := by
  obtain ⟨d, hd, he⟩ := exists_of_bind_ok hc
  exact (cleanAs_erodeWith he).trans (cleanAs_dilateWith hd)

theorem cleanAs_gradient (hc : r.gradient = .ok c) : c.CleanAs r := by
  obtain ⟨d, hd, hrest⟩ := exists_of_bind_ok hc
  obtain ⟨e, he, hsub⟩ := exists_of_bind_ok hrest
  have hdr := cleanAs_dilateWith hd
  exact (cleanAs_combine hdr.paddingClear (cleanAs_erodeWith he).paddingClear
    (ok_of_mapError_ok hsub)).1.trans hdr

theorem cleanAs_topHat (hp : r.PaddingClear) (hc : r.topHat = .ok c) : c.CleanAs r := by
  obtain ⟨o, ho, hsub⟩ := exists_of_bind_ok hc
  exact (cleanAs_combine hp (cleanAs_opening ho).paddingClear (ok_of_mapError_ok hsub)).1

/-! ## Makers -/

theorem exists_tabulate_of_ofBits {bits : Array Bool} {w h : Nat} (hc : ofBits? bits w h = .ok c) :
    ∃ hw hh f, c = (blank w h hw hh).tabulate f := by
  by_cases hsides : w < 2 ∨ h < 2
  · rw [ofBits?_tooSmall bits hsides] at hc
    cases hc
  · by_cases hs : bits.size = w * h
    · rw [ofBits?_eq (by omega) (by omega) hs] at hc
      exact ⟨_, _, _, (Except.ok.inj hc).symm⟩
    · rw [ofBits?_bufferSize (by omega) (by omega) hs] at hc
      cases hc

theorem cleanAs_repack (hc : ofBits? r.toBits r.width r.height = .ok c) : c.CleanAs r := by
  obtain ⟨hw, hh, f, rfl⟩ := exists_tabulate_of_ofBits hc
  exact ⟨rfl, rfl, paddingClear_tabulate f⟩

theorem paddingClear_ofBits {bits : Array Bool} {w h : Nat} (hc : ofBits? bits w h = .ok c) :
    c.PaddingClear := by
  obtain ⟨hw, hh, f, rfl⟩ := exists_tabulate_of_ofBits hc
  exact paddingClear_tabulate f

theorem paddingClear_blank? {w h : Nat} (hc : blank? w h = .ok c) : c.PaddingClear := by
  unfold blank? at hc
  split at hc
  next hwh =>
    obtain rfl := Except.ok.inj hc
    exact (blank w h hwh.1 hwh.2).paddingClear_template
  next => cases hc

theorem paddingClear_ofBytes {bytes : Array UInt8} {w h : Nat} (hc : ofBytes? w h bytes = .ok c) :
    c.PaddingClear := by
  unfold ofBytes? at hc
  split at hc
  next hwh =>
    split at hc
    next hb =>
      obtain rfl := Except.ok.inj hc
      exact paddingClear_clearPadding _
    next => cases hc
  next => cases hc

theorem paddingClear_ofPicture {text : String} (hc : ofPicture? text = .ok c) : c.PaddingClear := by
  obtain ⟨rows, -, hrest⟩ := exists_of_bind_ok hc
  dsimp only at hrest
  split at hrest
  next => cases hrest
  next => exact paddingClear_ofBits hrest

end Raster

namespace Pattern

variable {c : Raster} {w h : Nat}

theorem paddingClear_checkerboard {n : Nat} (hc : checkerboard w h n = .ok c) : c.PaddingClear := by
  unfold checkerboard at hc
  split at hc
  next => cases hc
  next =>
    obtain ⟨b, -, hboard⟩ := exists_of_bind_ok hc
    obtain rfl := Except.ok.inj hboard
    exact Raster.paddingClear_tabulate _

theorem paddingClear_random {d : Float} {seed : UInt64} {g : Generator}
    (hc : random w h d seed g = .ok c) : c.PaddingClear := by
  unfold random at hc
  split at hc
  next => cases hc
  next => exact Raster.paddingClear_ofBits (ok_of_mapError_ok hc)

theorem paddingClear_full (hc : full w h = .ok c) : c.PaddingClear := by
  obtain ⟨b, -, hinvert⟩ := exists_of_bind_ok hc
  obtain rfl := Except.ok.inj hinvert
  exact b.cleanAs_invert.paddingClear

end Pattern

/-- **Whatever a raster is made from, its padding is clear.** -/
theorem Source.paddingClear_build {s : Source} {r : Raster} (hr : s.build = .ok r) :
    r.PaddingClear := by
  cases s with
  | blank w h => exact Raster.paddingClear_blank? (ok_of_mapError_ok hr)
  | bytes w h bs => exact Raster.paddingClear_ofBytes (ok_of_mapError_ok hr)
  | bits w h vs => exact Raster.paddingClear_ofBits (ok_of_mapError_ok hr)
  | picture t => exact Raster.paddingClear_ofPicture (ok_of_mapError_ok hr)
  | checkerboard w h n => exact Pattern.paddingClear_checkerboard (ok_of_mapError_ok hr)
  | random w h d seed g => exact Pattern.paddingClear_random (ok_of_mapError_ok hr)
  | full w h => exact Pattern.paddingClear_full (ok_of_mapError_ok hr)

end Bitplane
