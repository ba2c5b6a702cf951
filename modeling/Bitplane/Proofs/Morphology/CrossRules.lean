import Bitplane.Proofs.Morphology.Dilation
import Bitplane.Proofs.Morphology.IsolatedPixels
import Bitplane.Proofs.Raster.CleanResults

/-! # Operators by rules on crosses

Each operator decides over a pixel by five pixels of the buffer: the pixel itself and the four
beside it, whichever bytes they lie in and whether they belong to the picture or to the padding. So
it answers the raster that a rule on these five makes, and what holds of the rule holds of the
operator, however the padding is filled.

* `CrossPixels`: the five pixels; `any`, `all` and `accompanied` are the rules.
* `FollowsRule`: the operator answers the picture `byRule` that a rule makes of the crosses;
  `dilateWith_followsRule`, `erodeWith_followsRule`, `filterIsolatedWith_followsRule`: the three do.
* `FollowsRule.keepsInclusions`: an operator whose rule keeps inclusions of crosses keeps those of
  rasters, however they are padded; `KeepsInclusions.bind`: so do two of them in turn.
* `crossAt_combine`: the crosses of a combination are the combined crosses.
* `FollowsRule.commutesWith`: so an operator whose rule keeps a combination of pixels keeps that of
  rasters.
* `dilation_and_erosion_distribute`: dilation keeps unions and erosion intersections. -/

namespace Bitplane

open Byte (stride)

open Morphology

/-- **The pixels of a cross**: the one in the middle and the four beside it. -/
structure CrossPixels where
  middle : Bool
  left : Bool
  right : Bool
  above : Bool
  below : Bool

namespace CrossPixels

/-- A pixel beside the middle is set. -/
def beside (c : CrossPixels) : Bool := c.left || c.right || c.above || c.below

/-- Some pixel of the cross is set. -/
def any (c : CrossPixels) : Bool := c.middle || c.beside

/-- All pixels of the cross are set. -/
def all (c : CrossPixels) : Bool := c.middle && c.left && c.right && c.above && c.below

/-- The middle is set, and a pixel beside it. -/
def accompanied (c : CrossPixels) : Bool := c.middle && c.beside

/-- Two crosses combined pixel by pixel. -/
def combine (k : Combination) (c d : CrossPixels) : CrossPixels where
  middle := k.onPixels c.middle d.middle
  left := k.onPixels c.left d.left
  right := k.onPixels c.right d.right
  above := k.onPixels c.above d.above
  below := k.onPixels c.below d.below

/-- A cross with every pixel flipped. -/
def flip (c : CrossPixels) : CrossPixels where
  middle := !c.middle
  left := !c.left
  right := !c.right
  above := !c.above
  below := !c.below

/-- **Every set pixel of the first cross is set in the second.** -/
structure Within (c d : CrossPixels) : Prop where
  middle : c.middle = true → d.middle = true
  left : c.left = true → d.left = true
  right : c.right = true → d.right = true
  above : c.above = true → d.above = true
  below : c.below = true → d.below = true

theorem any_combine_or (c d : CrossPixels) : (combine .or c d).any = (c.any || d.any) := by
  simp only [any, beside, combine, Combination.onPixels]
  ac_rfl

theorem all_combine_and (c d : CrossPixels) : (combine .and c d).all = (c.all && d.all) := by
  simp only [all, combine, Combination.onPixels]
  ac_rfl

theorem all_flip (c : CrossPixels) : c.flip.all = !c.any := by
  simp only [all, any, beside, flip, Bool.not_or, Bool.and_assoc]

variable {c d : CrossPixels}

theorem Within.beside (h : c.Within d) (hc : c.beside = true) : d.beside = true := by
  simp only [CrossPixels.beside, Bool.or_eq_true] at hc ⊢
  exact Or.imp (Or.imp (Or.imp h.left h.right) h.above) h.below hc

theorem Within.any (h : c.Within d) (hc : c.any = true) : d.any = true := by
  simp only [CrossPixels.any, Bool.or_eq_true] at hc ⊢
  exact hc.imp h.middle h.beside

theorem Within.all (h : c.Within d) (hc : c.all = true) : d.all = true := by
  simp only [CrossPixels.all, Bool.and_eq_true] at hc ⊢
  exact And.imp (And.imp (And.imp (And.imp h.middle h.left) h.right) h.above) h.below hc

theorem Within.accompanied (h : c.Within d) (hc : c.accompanied = true) : d.accompanied = true := by
  simp only [CrossPixels.accompanied, Bool.and_eq_true] at hc ⊢
  exact hc.imp h.middle h.beside

end CrossPixels

theorem Combination.onPixels_false (k : Combination) : k.onPixels false false = false := by
  cases k <;> rfl

namespace Raster

variable {a b r u : Raster} {k : Combination} {s : Strategy} {x y : Nat}
  {op op' : Raster → Except Morphology.Error Raster} {rule : CrossPixels → Bool}

/-! ## Crosses of the buffer -/

/-- **The pixels of the buffer in the cross around a point**, padding included; beyond the rows they
are clear. -/
def crossAt (r : Raster) (x y : Nat) : CrossPixels where
  middle := r.bit x y
  left := decide (0 < x) && r.bit (x - 1) y
  right := r.bit (x + 1) y
  above := decide (0 < y) && r.bit x (y - 1)
  below := r.bit x (y + 1)

/-- What a rule makes of the crosses around the pixels of the picture. -/
def byRule (rule : CrossPixels → Bool) (r : Raster) : Raster :=
  r.tabulate fun x y => rule (r.crossAt x y)

theorem isSet_byRule (h : r.Inside x y) : (r.byRule rule).isSet x y = rule (r.crossAt x y) := by
  unfold byRule
  rw [isSet_tabulate, decide_eq_true h, Bool.true_and]

theorem cleanAs_byRule (r : Raster) : (r.byRule rule).CleanAs r := r.cleanAs_tabulate _

/-- **The operator answers what a rule makes of the crosses**, on every raster of two rows and
columns, padded as it may be. -/
def FollowsRule (op : Raster → Except Morphology.Error Raster) (rule : CrossPixels → Bool) : Prop :=
  ∀ r : Raster, 2 ≤ r.width → 2 ≤ r.height → op r = .ok (r.byRule rule)

theorem sweep?_followsRule {kernel : Kernel} (hk : ∀ v dst, (kernel v dst).length = dst.length)
    (hbit : ∀ {r : Raster} {x y : Nat}, y < r.height → x < 8 * stride r.width →
      (sweep s kernel r).bit x y = (decide (x < r.width) && rule (r.crossAt x y))) :
    FollowsRule (sweep? s kernel) rule := by
  intro r hw hh
  have hsweep : sweep s kernel r = r.byRule rule := sweep_eq_tabulate hk fun x y hin => by
    rw [hbit hin.2 (lt_stride_of_lt_width hin.1), decide_eq_true hin.1, Bool.true_and]
  rw [sweep?_ok s kernel hw hh, hsweep]

theorem dilateWith_followsRule (s : Strategy) : FollowsRule (dilateWith s) CrossPixels.any :=
  sweep?_followsRule (fun _ _ => List.length_mapIdx) (bit_dilate s)

theorem erodeWith_followsRule (s : Strategy) : FollowsRule (erodeWith s) CrossPixels.all :=
  sweep?_followsRule length_erodeRow (bit_erode s)

theorem filterIsolatedWith_followsRule (s : Strategy) :
    FollowsRule (filterIsolatedWith s) CrossPixels.accompanied :=
  sweep?_followsRule (fun _ _ => List.length_mapIdx) (bit_filter s)

/-! ## Inclusions -/

theorem crossAt_within (h : ∀ x y, a.bit x y = true → b.bit x y = true) (x y : Nat) :
    (a.crossAt x y).Within (b.crossAt x y) := by
  have hguard : ∀ (g : Bool) (x y : Nat), (g && a.bit x y) = true → (g && b.bit x y) = true :=
    fun g x y => by
      rw [Bool.and_eq_true, Bool.and_eq_true]
      exact And.imp_right (h x y)
  exact ⟨h _ _, hguard _ _ _, h _ _, hguard _ _ _, h _ _⟩

/-- **The operator keeps inclusions**: it succeeds on two rasters of one size with two rows and
columns each, padded as they may be, answers such rasters, and more for the larger one. -/
def KeepsInclusions (op : Raster → Except Morphology.Error Raster) : Prop :=
  ∀ a b : Raster, a.size = b.size → 2 ≤ a.width → 2 ≤ a.height → a.isSubset b = .ok true →
    ∃ c d, op a = .ok c ∧ op b = .ok d ∧ c.size = a.size ∧ d.size = a.size ∧ c.isSubset d = .ok true

/-- **An operator whose rule keeps inclusions of crosses keeps those of rasters.** -/
theorem FollowsRule.keepsInclusions (hop : FollowsRule op rule)
    (hrule : ∀ {c d : CrossPixels}, c.Within d → rule c = true → rule d = true) :
    KeepsInclusions op := by
  intro a b hs hw hh hab
  obtain ⟨hwidth, hheight⟩ := Prod.mk.inj hs
  obtain ⟨v, hv, hbits⟩ := isSubset_iff_bit hwidth hheight
  rw [hv, Except.ok.injEq, hbits] at hab
  have ha : (a.byRule rule).CleanAs a := cleanAs_byRule a
  have hb : (b.byRule rule).CleanAs b := cleanAs_byRule b
  have hsize : (b.byRule rule).size = a.size := hb.size_eq.trans hs.symm
  refine ⟨_, _, hop a hw hh, hop b (hwidth ▸ hw) (hheight ▸ hh), ha.size_eq, hsize, ?_⟩
  rw [isSubset_eq_true_iff ha.paddingClear hb.paddingClear (ha.size_eq.trans hsize.symm)]
  intro p hp
  have hin : a.Inside p.x p.y := inside_of_isSet (r := a.byRule rule) hp
  have hin' : b.Inside p.x p.y := ⟨hwidth ▸ hin.1, hheight ▸ hin.2⟩
  rw [isSet_byRule hin] at hp
  rw [isSet_byRule hin']
  exact hrule (crossAt_within hab p.x p.y) hp

theorem KeepsInclusions.bind (hop : KeepsInclusions op) (hop' : KeepsInclusions op') :
    KeepsInclusions fun r => op r >>= op' := by
  intro a b hs hw hh hab
  obtain ⟨c, d, hc, hd, hcs, hds, hcd⟩ := hop a b hs hw hh hab
  obtain ⟨hwidth, hheight⟩ := Prod.mk.inj hcs
  obtain ⟨e, f, he, hf, hes, hfs, hef⟩ :=
    hop' c d (hcs.trans hds.symm) (hwidth ▸ hw) (hheight ▸ hh) hcd
  exact ⟨e, f, (congrArg (· >>= op') hc).trans he, (congrArg (· >>= op') hd).trans hf,
    hes.trans hcs, hfs.trans hcs, hef⟩

/-- What the operator answers for one raster lies in what it answers for a larger one. -/
theorem KeepsInclusions.of_ok (hop : KeepsInclusions op) {c : Raster} (hc : op a = .ok c)
    (hs : a.size = b.size) (hw : 2 ≤ a.width) (hh : 2 ≤ a.height) (hab : a.isSubset b = .ok true) :
    ∃ d, op b = .ok d ∧ c.isSubset d = .ok true := by
  obtain ⟨c', d, hc', hd, -, -, hle⟩ := hop a b hs hw hh hab
  obtain rfl := Except.ok.inj (hc'.symm.trans hc)
  exact ⟨d, hd, hle⟩

theorem dilateWith_keepsInclusions (s : Strategy) : KeepsInclusions (dilateWith s) :=
  (dilateWith_followsRule s).keepsInclusions CrossPixels.Within.any

theorem erodeWith_keepsInclusions (s : Strategy) : KeepsInclusions (erodeWith s) :=
  (erodeWith_followsRule s).keepsInclusions CrossPixels.Within.all

theorem filterIsolatedWith_keepsInclusions (s : Strategy) :
    KeepsInclusions (filterIsolatedWith s) :=
  (filterIsolatedWith_followsRule s).keepsInclusions CrossPixels.Within.accompanied

/-! ## Combinations -/

theorem bit_combine (hs : a.size = b.size) (hu : combine k a b = .ok u) (x y : Nat) :
    u.bit x y = k.onPixels (a.bit x y) (b.bit x y) := by
  obtain ⟨hw, hh⟩ := Prod.mk.inj hs
  obtain ⟨u', hu', huw, huh, hbit⟩ := combine_eq k hw hh
  obtain rfl : u' = u := Except.ok.inj (hu'.symm.trans hu)
  rcases Nat.lt_or_ge y a.height with hy | hy
  · rcases Nat.lt_or_ge x (8 * stride a.width) with hx | hx
    · exact hbit y hy x hx
    · rw [bit_of_stride_le (huw ▸ hx), bit_of_stride_le hx, bit_of_stride_le (hw ▸ hx),
        k.onPixels_false]
  · rw [bit_of_height_le (huh ▸ hy), bit_of_height_le hy, bit_of_height_le (hh ▸ hy),
      k.onPixels_false]

theorem crossAt_combine (hs : a.size = b.size) (hu : combine k a b = .ok u) (x y : Nat) :
    u.crossAt x y = (a.crossAt x y).combine k (b.crossAt x y) := by
  have hguard : ∀ g v w : Bool, (g && k.onPixels v w) = k.onPixels (g && v) (g && w) := by
    cases k <;> decide
  simp only [crossAt, CrossPixels.combine, bit_combine hs hu, hguard]

/-- **The operator keeps the combination of two rasters**: it succeeds on both and on what they
combine to, and answers there what its answers combine to. -/
def CommutesWith (op : Raster → Except Morphology.Error Raster) (k : Combination) (a b : Raster) :
    Prop :=
  ∃ u c d v, combine k a b = .ok u ∧ op a = .ok c ∧ op b = .ok d ∧ op u = .ok v ∧
    combine k c d = .ok v

/-- **Where the rule keeps a combination of pixels, the operator keeps that of rasters.** -/
theorem FollowsRule.commutesWith (hop : FollowsRule op rule)
    (hrule : ∀ c d, rule (.combine k c d) = k.onPixels (rule c) (rule d)) (hs : a.size = b.size)
    (hw : 2 ≤ a.width) (hh : 2 ≤ a.height) : CommutesWith op k a b := by
  obtain ⟨hwidth, hheight⟩ := Prod.mk.inj hs
  obtain ⟨u, hu, huw, huh, -⟩ := combine_eq k hwidth hheight
  refine ⟨u, _, _, _, hu, hop a hw hh, hop b (hwidth ▸ hw) (hheight ▸ hh),
    hop u (huw ▸ hw) (huh ▸ hh), ?_⟩
  have hb : b.byRule rule = a.tabulate fun x y => rule (b.crossAt x y) :=
    tabulate_congr hwidth.symm hheight.symm fun _ _ _ => rfl
  rw [hb]
  refine (combine_tabulate k a _ _).trans ?_
  refine congrArg Except.ok (tabulate_congr huw.symm huh.symm fun x y _ => ?_)
  rw [crossAt_combine hs hu, hrule]

/-- **Dilation keeps unions and erosion keeps intersections**, byte for byte, of any two rasters of
one size with two rows and columns, padded as they may be. -/
theorem dilation_and_erosion_distribute (s : Strategy) (hs : a.size = b.size) (hw : 2 ≤ a.width)
    (hh : 2 ≤ a.height) :
    CommutesWith (dilateWith s) .or a b ∧ CommutesWith (erodeWith s) .and a b :=
  ⟨(dilateWith_followsRule s).commutesWith CrossPixels.any_combine_or hs hw hh,
    (erodeWith_followsRule s).commutesWith CrossPixels.all_combine_and hs hw hh⟩

/-- Two rasters with set pixels on both sides of the end of a byte, and with set padding. -/
theorem dilation_and_erosion_distribute_padded :
    let a : Raster := ⟨10, 3, #[0x01, 0x3f, 0x83, 0xe0, 0x01, 0xc1], by decide, by decide, by decide⟩
    let b : Raster := ⟨10, 3, #[0x81, 0x80, 0x07, 0xff, 0x11, 0xa0], by decide, by decide, by decide⟩
    let s : Strategy := .parallel ⟨[2, 0]⟩
    a.size = b.size ∧ 2 ≤ a.width ∧ 2 ≤ a.height ∧
      CommutesWith (dilateWith s) .or a b ∧ CommutesWith (erodeWith s) .and a b := by
  intro a b s
  exact ⟨rfl, by decide, by decide,
    dilation_and_erosion_distribute s rfl (by decide) (by decide)⟩

end Raster

end Bitplane
