import Bitplane.Proofs.Morphology.Kernels
import Bitplane.Proofs.Region.CellBoxes
import Bitplane.Proofs.Region.ComponentNumbers

/-! # Rasters as sets of pixels

With clear padding the bytes of a raster say no more than which pixels are set: `tabulate` makes the
one raster of a size with given pixels, and every operation on bytes is one on pixels.

* `tabulate_isSet`: a raster is that of its pixels; `combine_eq_tabulate`, `invert_eq_tabulate`:
  combinations and the complement are those of the combined and flipped pixels.
* `pixel_bytes`: every pixel of the buffer is one of a row, so that `isEmpty_iff_bit` and
  `isSubset_iff_bit` read the bytes as pixels, padding included.
* `Within`: inclusion of sets of pixels, which is what `isSubset` decides (`exists_isSubset`).
* `count_eq_countP`: the bytes have as many set pixels as the picture.
* `SetsOfOneSize`, `SetOfPixels`: the laws of two rasters of one size and of a single one.
* `rasters_are_pixel_sets`: they hold of all rasters with clear padding. -/

namespace Bitplane

namespace Raster

open Byte (stride)

open Region (Drawn mark)

variable {r a b c : Raster} {op : Combination} {f g : Nat → Nat → Bool} {i j x y : Nat}

/-! ## The raster of given pixels -/

theorem tabulate_isSet (hp : r.PaddingClear) : r.tabulate r.isSet = r := by
  refine eq_of_isSet (paddingClear_tabulate _) hp rfl rfl fun y hy x hx => ?_
  have hin : r.Inside x y := ⟨hx, hy⟩
  rw [isSet_tabulate, decide_eq_true hin, Bool.true_and]

theorem tabulate_congr (hw : a.width = b.width) (hh : a.height = b.height)
    (h : ∀ x y, a.Inside x y → f x y = g x y) : a.tabulate f = b.tabulate g := by
  refine eq_of_isSet (paddingClear_tabulate f) (paddingClear_tabulate g) hw hh fun y hy x hx => ?_
  have hin : a.Inside x y := ⟨hx, hy⟩
  have hin' : b.Inside x y := ⟨hw ▸ hx, hh ▸ hy⟩
  rw [isSet_tabulate, isSet_tabulate, decide_eq_true hin, decide_eq_true hin', h x y hin]

/-- **Rasters with clear padding are combined as sets of pixels.** -/
theorem combine_eq_tabulate (op : Combination) (ha : a.PaddingClear) (hb : b.PaddingClear)
    (hw : a.width = b.width) (hh : a.height = b.height) :
    combine op a b = .ok (a.tabulate fun x y => op.onPixels (a.isSet x y) (b.isSet x y)) := by
  obtain ⟨c, hc, hcw, hch, hbit⟩ := combine_eq op hw hh
  rw [hc]
  congr 1
  refine eq_of_bit hcw hch fun y hy x hx => ?_
  rw [hch] at hy
  rw [hcw] at hx
  rw [hbit y hy x hx, bit_tabulate _ hy hx, ha.bit_eq_isSet, hb.bit_eq_isSet]
  by_cases hxw : x < a.width
  · rw [decide_eq_true hxw, Bool.true_and]
  · -- no combination sets a pixel that is clear in both
    have hclear : a.isSet x y = false ∧ b.isSet x y = false := by
      rw [← Bool.not_eq_true, ← Bool.not_eq_true]
      exact ⟨fun h => hxw (inside_of_isSet h).1, fun h => hxw (hw ▸ (inside_of_isSet h).1)⟩
    rw [decide_eq_false hxw, hclear.1, hclear.2]
    cases op <;> rfl

theorem invert_eq_tabulate (r : Raster) : r.invert = r.tabulate fun x y => !r.isSet x y := by
  refine eq_of_bit rfl rfl fun y hy x hx => ?_
  rw [bit_invert (r := r) hy hx, bit_tabulate (r := r) _ hy hx]
  by_cases hxw : x < r.width
  · rw [isSet_of_inside ⟨hxw, hy⟩]
  · rw [decide_eq_false hxw, Bool.false_and, Bool.false_and]

theorem isSet_invert (h : r.Inside x y) : r.invert.isSet x y = !r.isSet x y := by
  rw [invert_eq_tabulate, isSet_tabulate, decide_eq_true h, Bool.true_and]

theorem combine_tabulate (op : Combination) (r : Raster) (f g : Nat → Nat → Bool) :
    combine op (r.tabulate f) (r.tabulate g) =
      .ok (r.tabulate fun x y => op.onPixels (f x y) (g x y)) := by
  rw [combine_eq_tabulate op (paddingClear_tabulate f) (paddingClear_tabulate g) rfl rfl]
  congr 1
  refine tabulate_congr rfl rfl fun x y hin => ?_
  have hin' : r.Inside x y := hin
  rw [isSet_tabulate, isSet_tabulate, decide_eq_true hin', Bool.true_and, Bool.true_and]

/-! ## Bytes as pixels -/

/-- **Every pixel of the buffer is one of a row.** -/
theorem pixel_bytes (r : Raster) (hi : i < r.bytes.size) (hj : j < 8) :
    Byte.pixel r.bytes[i] j = r.bit (8 * (i % stride r.width) + j) (i / stride r.width) := by
  have hk : i % stride r.width < stride r.width := Nat.mod_lt i (Byte.stride_pos r.width_pos)
  have hrow := getElem?_row r (i / stride r.width) (i % stride r.width)
  rw [if_pos hk, Nat.div_add_mod, Array.getElem?_eq_getElem hi] at hrow
  unfold bit
  rw [show (8 * (i % stride r.width) + j) / 8 = i % stride r.width by omega,
    show (8 * (i % stride r.width) + j) % 8 = j by omega, hrow]
  rfl

theorem lt_of_bit (h : r.bit x y = true) : x < 8 * stride r.width ∧ y < r.height := by
  constructor
  · by_contra hx
    rw [bit_of_stride_le (not_lt.mp hx)] at h
    cases h
  · by_contra hy
    rw [bit_of_height_le (not_lt.mp hy)] at h
    cases h

theorem exists_byte (h : r.bit x y = true) :
    ∃ v, r.bytes[r.place x y]? = some v ∧ Byte.pixel v (x % 8) = true := by
  obtain ⟨hx, hy⟩ := lt_of_bit h
  rw [← h]
  exact Option.map_eq_some_iff.mp (stored?_eq hx hy)

theorem isEmpty_iff_bit : r.isEmpty = true ↔ ∀ x y, r.bit x y = false := by
  unfold isEmpty
  rw [Array.all_eq_true]
  constructor
  · intro h x y
    by_contra hset
    obtain ⟨v, hv, hpixel⟩ := exists_byte (by simpa using hset)
    obtain ⟨hlt, rfl⟩ := Array.getElem?_eq_some_iff.mp hv
    rw [beq_iff_eq.mp (h _ hlt), Byte.pixel_zero] at hpixel
    cases hpixel
  · intro h i hi
    rw [beq_iff_eq]
    refine Byte.eq_of_pixel fun j hj => ?_
    rw [pixel_bytes r hi hj, h, Byte.pixel_zero]

theorem isSubset_iff_bit (hw : a.width = b.width) (hh : a.height = b.height) :
    ∃ v, a.isSubset b = .ok v ∧ (v = true ↔ ∀ x y, a.bit x y = true → b.bit x y = true) := by
  have hsize : a.bytes.size = b.bytes.size := by rw [a.size_bytes, b.size_bytes, hw, hh]
  refine ⟨_, by unfold isSubset; rw [checkSameSize_ok hw hh]; rfl, ?_⟩
  rw [List.all_eq_true]
  constructor
  · intro h x y hset
    obtain ⟨p, hp, hpixel⟩ := exists_byte hset
    obtain ⟨hx, hy⟩ := lt_of_bit hset
    have hplace : a.place x y = b.place x y := by unfold place; rw [hw]
    obtain ⟨q, hq, hbit⟩ := Option.map_eq_some_iff.mp
      (stored?_eq (r := b) (x := x) (y := y) (hw ▸ hx) (hh ▸ hy))
    have hzip : (List.zipWith (fun p q => p &&& ~~~ q) a.bytes.toList b.bytes.toList)[a.place x y]? =
        some (p &&& ~~~ q) := by
      rw [List.getElem?_zipWith, Array.getElem?_toList, Array.getElem?_toList, hp, hplace, hq]
    have hzero := congrArg (Byte.pixel · (x % 8)) (beq_iff_eq.mp (h _ (List.mem_of_getElem? hzip)))
    simp only [Byte.pixel_and, Byte.pixel_not, Byte.pixel_zero, hpixel, Bool.true_and] at hzero
    rw [← hbit]
    simpa using hzero
  · intro h e he
    obtain ⟨i, hi, rfl⟩ := List.mem_iff_getElem.mp he
    rw [List.length_zipWith, Array.length_toList, Array.length_toList, ← hsize, Nat.min_self] at hi
    have hib : i < b.bytes.size := hsize ▸ hi
    rw [List.getElem_zipWith, Array.getElem_toList, Array.getElem_toList, beq_iff_eq]
    refine Byte.eq_of_pixel fun j hj => ?_
    rw [Byte.pixel_and, Byte.pixel_not, pixel_bytes a hi hj, pixel_bytes b hib hj, Byte.pixel_zero,
      ← hw]
    have := h (8 * (i % stride a.width) + j) (i / stride a.width)
    cases hbit : a.bit (8 * (i % stride a.width) + j) (i / stride a.width) with
    | false => rfl
    | true => rw [this hbit]; rfl

/-! ## Inclusion -/

/-- **Every set pixel of the first picture is set in the second.** -/
def Within (a b : Raster) : Prop := ∀ p : Point, a.isSet p.x p.y = true → b.isSet p.x p.y = true

theorem Within.refl (r : Raster) : r.Within r := fun _ => id

theorem Within.trans (hab : a.Within b) (hbc : b.Within c) : a.Within c :=
  fun p hp => hbc p (hab p hp)

theorem Within.antisymm (hab : a.Within b) (hba : b.Within a) (ha : a.PaddingClear)
    (hb : b.PaddingClear) (hs : a.size = b.size) : a = b := by
  obtain ⟨hw, hh⟩ := Prod.mk.inj hs
  exact eq_of_isSet ha hb hw hh fun y _ x _ => Bool.eq_iff_iff.mpr ⟨hab ⟨x, y⟩, hba ⟨x, y⟩⟩

/-- **Pictures of one size are compared**, and the answer is inclusion. -/
theorem exists_isSubset (ha : a.PaddingClear) (hb : b.PaddingClear) (hs : a.size = b.size) :
    ∃ v, a.isSubset b = .ok v ∧ (v = true ↔ a.Within b) := by
  obtain ⟨hw, hh⟩ := Prod.mk.inj hs
  obtain ⟨v, hv, hiff⟩ := isSubset_iff_bit hw hh
  refine ⟨v, hv, hiff.trans ?_⟩
  simp only [ha.bit_eq_isSet, hb.bit_eq_isSet]
  exact ⟨fun h p => h p.x p.y, fun h x y => h ⟨x, y⟩⟩

theorem isSubset_eq_true_iff (ha : a.PaddingClear) (hb : b.PaddingClear) (hs : a.size = b.size) :
    a.isSubset b = .ok true ↔ a.Within b := by
  obtain ⟨v, hv, hiff⟩ := exists_isSubset ha hb hs
  rw [hv, Except.ok.injEq, hiff]

/-! ## Counting pixels -/

/-- The set pixels of a picture as cells. -/
def setCells (r : Raster) : List Cell :=
  (r.points.filter fun p => r.isSet p.x p.y).map fun p => ⟨p.x, p.y, 1⟩

theorem mem_setCells_iff {d : Cell} :
    d ∈ r.setCells ↔ d.label = 1 ∧ r.isSet d.x d.y = true := by
  obtain ⟨x, y, l⟩ := d
  unfold setCells
  rw [List.mem_map]
  constructor
  · rintro ⟨p, hp, hd⟩
    obtain ⟨rfl, rfl, rfl⟩ := Cell.mk.inj hd
    exact ⟨rfl, (List.mem_filter.mp hp).2⟩
  · rintro ⟨rfl, hset⟩
    exact ⟨⟨x, y⟩, List.mem_filter.mpr ⟨mem_points_iff.mpr (inside_of_isSet hset), hset⟩, rfl⟩

theorem pairwise_setCells (r : Raster) :
    r.setCells.Pairwise fun c d => ¬ (c.x = d.x ∧ c.y = d.y) := by
  refine List.pairwise_map.mpr ((r.nodup_points.filter _).imp fun {p q} hne hxy => hne ?_)
  obtain ⟨x, y⟩ := p
  exact Point.mk.injEq .. ▸ hxy

/-- **A raster with clear padding is the blank one with its set pixels drawn.** -/
theorem drawn_setCells (hp : r.PaddingClear) : Drawn r 0 0 r.setCells := by
  have hunder : ∀ d ∈ r.setCells, Region.Cell.Under d r.template 0 0 := fun d hd =>
    ⟨Nat.zero_le _, Nat.zero_le _, inside_of_isSet (r := r) (mem_setCells_iff.mp hd).2⟩
  have h := (Region.drawn_template r 0 0).foldl hunder r.pairwise_setCells
  rw [List.nil_append] at h
  have hr : r.setCells.foldl (mark 0 0) r.template = r := by
    refine eq_of_isSet h.paddingClear hp Region.width_foldl_mark Region.height_foldl_mark
      fun y _ x _ => ?_
    rw [Bool.eq_iff_iff, h.isSet_iff]
    constructor
    · rintro ⟨d, hd, hx, hy⟩
      rw [Nat.zero_add] at hx hy
      rw [← hx, ← hy]
      exact (mem_setCells_iff.mp hd).2
    · intro hset
      exact ⟨⟨x, y, 1⟩, mem_setCells_iff.mpr ⟨rfl, hset⟩, (Nat.zero_add x).symm,
        (Nat.zero_add y).symm⟩
  rwa [hr] at h

/-- **The buffer has as many set pixels as the picture.** -/
theorem count_eq_countP (hp : r.PaddingClear) :
    r.count = r.points.countP fun p => r.isSet p.x p.y := by
  rw [(drawn_setCells hp).count_eq, setCells, List.length_map, List.countP_eq_length_filter]

theorem countP_or_add_countP_and {α : Type} (f g : α → Bool) (l : List α) :
    (l.countP fun p => f p || g p) + (l.countP fun p => f p && g p) = l.countP f + l.countP g := by
  induction l with
  | nil => rfl
  | cons p l ih =>
    simp only [List.countP_cons]
    cases f p <;> cases g p <;> simp <;> omega

/-! ## Laws -/

theorem get?_eq_some_true_iff : r.get? x y = some true ↔ r.isSet x y = true := by
  unfold isSet
  cases r.get? x y with
  | none => simp
  | some v => simp

theorem get?_tabulate (r : Raster) (f : Nat → Nat → Bool) (x y : Nat) :
    (r.tabulate f).get? x y = if r.Inside x y then some (f x y) else none := by
  by_cases hin : r.Inside x y
  · have hin' : (r.tabulate f).Inside x y := hin
    rw [if_pos hin, get?_of_inside hin', bit_tabulate f hin.2 (lt_stride_of_lt_width hin.1),
      decide_eq_true hin.1, Bool.true_and]
  · exact (get?_of_not_inside (r := r.tabulate f) hin).trans (if_neg hin).symm

theorem count_tabulate (r : Raster) (f : Nat → Nat → Bool) :
    (r.tabulate f).count = r.points.countP fun p => f p.x p.y := by
  rw [count_eq_countP (paddingClear_tabulate f)]
  refine List.countP_congr fun p hp => ?_
  have hin : r.Inside p.x p.y := mem_points_iff.mp hp
  rw [isSet_tabulate, decide_eq_true hin, Bool.true_and]

/-- **The laws of one set of pixels.** -/
structure SetOfPixels (r : Raster) : Prop where
  count_eq : r.count = r.points.countP fun p => r.isSet p.x p.y
  isEmpty_iff : r.isEmpty = true ↔ ∀ x y, r.Inside x y → r.get? x y = some false
  size_invert : r.invert.size = r.size
  paddingClear_invert : r.invert.PaddingClear
  get?_invert : ∀ x y, r.invert.get? x y = (r.get? x y).map (!·)
  invert_invert : r.invert.invert = r
  count_add_count_invert : r.count + r.invert.count = r.width * r.height

/-- **The laws of two sets of pixels** of one size. -/
structure SetsOfOneSize (a b : Raster) : Prop where
  eq_iff : a = b ↔ ∀ x y, a.Inside x y → a.get? x y = b.get? x y
  combine_ok : ∀ op, ∃ c, combine op a b = .ok c ∧ c.size = a.size ∧ c.PaddingClear ∧
    ∀ x y, a.Inside x y → c.get? x y = some (op.onPixels (a.isSet x y) (b.isSet x y))
  /-- Inclusion is that of the set pixels, and means that the difference is empty. -/
  isSubset_ok : ∃ v d, a.isSubset b = .ok v ∧ a.subtract b = .ok d ∧ v = d.isEmpty ∧
    (v = true ↔ ∀ x y, a.get? x y = some true → b.get? x y = some true)
  /-- Union, intersection and symmetric difference. -/
  or_and_xor : ∃ u i d, a.or b = .ok u ∧ a.and b = .ok i ∧ a.xor b = .ok d ∧ u.subtract i = .ok d ∧
    a.count + b.count = u.count + i.count

theorem PaddingClear.setOfPixels (hp : r.PaddingClear) : r.SetOfPixels where
  count_eq := count_eq_countP hp
  isEmpty_iff := by
    rw [isEmpty_iff_bit]
    constructor
    · intro h x y hin
      rw [get?_of_inside hin, h]
    · intro h x y
      rw [hp.bit_eq_isSet, ← Bool.not_eq_true]
      intro hset
      have := h x y (inside_of_isSet hset)
      rw [get?_eq_some_true_iff.mpr hset] at this
      cases this
  size_invert := rfl
  paddingClear_invert := r.invert_eq_tabulate ▸ paddingClear_tabulate _
  get?_invert x y := by
    rw [invert_eq_tabulate, get?_tabulate]
    by_cases hin : r.Inside x y
    · rw [if_pos hin, get?_of_inside hin, isSet_of_inside hin]
      rfl
    · rw [if_neg hin, get?_of_not_inside hin]
      rfl
  invert_invert := by
    rw [invert_eq_tabulate r.invert]
    refine (tabulate_congr rfl rfl fun x y hin => ?_).trans (tabulate_isSet hp)
    rw [isSet_invert (r := r) hin, Bool.not_not]
  count_add_count_invert := by
    have hlength : r.points.length = r.width * r.height := by
      unfold points
      rw [List.length_map, List.length_range]
    rw [invert_eq_tabulate, count_tabulate, count_eq_countP hp, ← hlength,
      List.length_eq_countP_add_countP fun p : Point => r.isSet p.x p.y]
    simp only [Bool.not_eq_true, Bool.decide_eq_false]

theorem setsOfOneSize (ha : a.PaddingClear) (hb : b.PaddingClear) (hw : a.width = b.width)
    (hh : a.height = b.height) : SetsOfOneSize a b where
  eq_iff := by
    constructor
    · rintro rfl x y _
      rfl
    · intro h
      refine eq_of_isSet ha hb hw hh fun y hy x hx => ?_
      unfold isSet
      rw [h x y ⟨hx, hy⟩]
  combine_ok op := by
    refine ⟨_, combine_eq_tabulate op ha hb hw hh, rfl, paddingClear_tabulate _, fun x y hin => ?_⟩
    rw [get?_tabulate, if_pos hin]
  isSubset_ok := by
    obtain ⟨v, hv, hiff⟩ := isSubset_iff_bit hw hh
    have hd := combine_eq_tabulate .subtract ha hb hw hh
    refine ⟨v, _, hv, hd, ?_, ?_⟩
    · rw [Bool.eq_iff_iff, hiff, isEmpty_iff_bit]
      refine forall_congr' fun x => forall_congr' fun y => ?_
      rw [(paddingClear_tabulate _).bit_eq_isSet, isSet_tabulate, ha.bit_eq_isSet, hb.bit_eq_isSet]
      cases hset : a.isSet x y with
      | false => simp [Combination.onPixels]
      | true => simp [Combination.onPixels, inside_of_isSet hset]
    · rw [hiff]
      simp only [get?_eq_some_true_iff, ha.bit_eq_isSet, hb.bit_eq_isSet]
  or_and_xor := by
    have hor := combine_eq_tabulate .or ha hb hw hh
    have hand := combine_eq_tabulate .and ha hb hw hh
    have hxor := combine_eq_tabulate .xor ha hb hw hh
    refine ⟨_, _, _, hor, hand, hxor, ?_, ?_⟩
    · refine (combine_tabulate .subtract a _ _).trans ?_
      congr 1
      refine tabulate_congr rfl rfl fun x y _ => ?_
      unfold Combination.onPixels
      cases a.isSet x y <;> cases b.isSet x y <;> rfl
    · rw [count_tabulate, count_tabulate, count_eq_countP ha, count_eq_countP hb,
        points_congr hw.symm hh.symm]
      exact (countP_or_add_countP_and _ _ _).symm

/-- **Rasters with clear padding are their sets of pixels**: byte by byte they are equal, combined,
flipped, included in one another and counted as those sets are. Rasters of different size are
neither combined nor compared. -/
theorem rasters_are_pixel_sets (a b : Raster) :
    (a.PaddingClear → a.SetOfPixels) ∧
    (a.PaddingClear → b.PaddingClear → a.size = b.size → SetsOfOneSize a b) ∧
    (a.size ≠ b.size →
      (∀ op, combine op a b = .error (.dimensionMismatch a.size b.size)) ∧
      a.isSubset b = .error (.dimensionMismatch a.size b.size)) := by
  refine ⟨PaddingClear.setOfPixels, fun ha hb hs => ?_, fun hs => ?_⟩
  · obtain ⟨hw, hh⟩ := Prod.mk.inj hs
    exact setsOfOneSize ha hb hw hh
  · have hne : ¬ (a.width = b.width ∧ a.height = b.height) := fun h => hs (Prod.ext h.1 h.2)
    refine ⟨fun op => combine_error op hne, ?_⟩
    unfold isSubset
    rw [checkSameSize_error hne]
    rfl

/-- Two rasters with six pixels of padding in every row, and one with none. -/
theorem rasters_are_pixel_sets_padded :
    let a : Raster := ⟨10, 2, #[0x9f, 0x40, 0x00, 0xc0], by decide, by decide, by decide⟩
    let b : Raster := ⟨10, 2, #[0x1f, 0x40, 0x01, 0x80], by decide, by decide, by decide⟩
    let c : Raster := ⟨16, 2, #[0x1f, 0x40, 0x01, 0x80], by decide, by decide, by decide⟩
    a.PaddingClear ∧ b.PaddingClear ∧ a.size = b.size ∧ a.size ≠ c.size ∧
      a.SetOfPixels ∧ SetsOfOneSize a b ∧
      (∀ op, combine op a c = .error (.dimensionMismatch (10, 2) (16, 2))) ∧
      a.isSubset c = .error (.dimensionMismatch (10, 2) (16, 2)) := by
  intro a b c
  have ha : a.PaddingClear := by decide
  have hb : b.PaddingClear := by decide
  obtain ⟨hone, htwo, -⟩ := rasters_are_pixel_sets a b
  exact ⟨ha, hb, rfl, by decide, hone ha, htwo ha hb rfl,
    (rasters_are_pixel_sets a c).2.2 (by decide)⟩

end Raster

end Bitplane
