import Bitplane.Byte.Lemmas
import Bitplane.Rows.Lemmas
import Bitplane.Raster.Basic

/-! # Rows and pixels of a raster

Each maker and writer of rasters, said of its rows and of its pixels. `bit r x y` is the pixel of
row `y` in column `x`, padding included; it is the view through which the operators are read.

* `row_update`, `row_blank`, `row_clearPadding`: the rows of what is made.
* `bit_update`, `bit_clearPadding`, `stored?_put`, `isSet_put`: its pixels.
* `count_put`: a clear pixel of the picture that is set raises the count by one.
* `eq_of_row`, `eq_of_bit`, `eq_of_isSet`: rasters of one size are equal if their rows are, if their
  pixels are, and, with clear padding, if the pixels of the picture are. -/

namespace Bitplane

section

variable {ε δ α β : Type} {e : Except ε α} {v : β}

theorem exists_of_bind_ok {f : α → Except ε β} (h : e >>= f = .ok v) :
    ∃ u, e = .ok u ∧ f u = .ok v := by
  cases e with
  | error d => cases h
  | ok u => exact ⟨u, rfl, h⟩

theorem ok_of_mapError_ok {f : ε → δ} {u : α} (h : e.mapError f = .ok u) : e = .ok u := by
  cases e with
  | error d => cases h
  | ok u' => exact congrArg Except.ok (Except.ok.inj h)

end

theorem checkSides_ok {w h : Nat} (hw : 2 ≤ w) (hh : 2 ≤ h) : checkSides w h = .ok () :=
  if_neg (by unfold leastSide; omega)

theorem checkSides_tooSmall {w h : Nat} (hs : w < 2 ∨ h < 2) :
    checkSides w h = .error (.tooSmall w h 2) := if_pos hs

namespace Raster

open Byte (stride)

variable {r a b : Raster} {s : Strategy} {f : Nat → List UInt8 → List UInt8} {x y : Nat}

/-! ## Rows -/

@[simp] theorem fullRows_bytes (r : Raster) :
    Rows.fullRows (stride r.width) r.bytes = r.height := by
  unfold Rows.fullRows
  rw [r.size_bytes, Nat.mul_div_cancel_left _ (Byte.stride_pos r.width_pos)]

theorem length_row (hy : y < r.height) : (r.row y).length = stride r.width :=
  Rows.length_rowOf (by rw [fullRows_bytes]; exact hy)

theorem getElem?_row (r : Raster) (y k : Nat) :
    (r.row y)[k]? = if k < stride r.width then r.bytes[stride r.width * y + k]? else none :=
  Rows.getElem?_rowOf _ _ _ _

@[simp] theorem width_update : (r.update s f).width = r.width := rfl

@[simp] theorem height_update : (r.update s f).height = r.height := rfl

theorem row_update (hf : Rows.KeepsLength (stride r.width) r.height f) (hy : y < r.height) :
    (r.update s f).row y = f y (r.row y) := by
  have h1 : Rows.KeepsLength (stride r.width) (Rows.fullRows (stride r.width) r.bytes) f := by
    rwa [fullRows_bytes]
  have h2 : y < Rows.fullRows (stride r.width) r.bytes := by rwa [fullRows_bytes]
  exact Rows.rowOf_update h1 h2

theorem row_blank {width height : Nat} (hw : 0 < width) (hh : 0 < height) (hy : y < height) :
    (blank width height hw hh).row y = List.replicate (stride width) 0 := by
  apply List.ext_getElem?
  intro k
  rw [getElem?_row, List.getElem?_replicate]
  by_cases hk : k < stride width
  · have : stride width * y + k < stride width * height := by
      have := Nat.mul_le_mul_left (stride width) (Nat.succ_le_of_lt hy)
      rw [Nat.succ_eq_add_one, Nat.mul_add, Nat.mul_one] at this
      omega
    simp [blank, hk, this]
  · simp [blank, hk]

@[simp] theorem width_template : r.template.width = r.width := rfl

@[simp] theorem height_template : r.template.height = r.height := rfl

theorem row_template (hy : y < r.height) : r.template.row y = List.replicate (stride r.width) 0 :=
  row_blank r.width_pos r.height_pos hy

@[simp] theorem width_clearPadding : r.clearPadding.width = r.width := rfl

@[simp] theorem height_clearPadding : r.clearPadding.height = r.height := rfl

theorem row_clearPadding (hy : y < r.height) :
    r.clearPadding.row y = Byte.maskLast r.paddingMask (r.row y) :=
  row_update (fun _ _ _ h => by rw [Byte.length_maskLast, h]) hy

theorem eq_of_row (hw : a.width = b.width) (hh : a.height = b.height)
    (h : ∀ y < a.height, a.row y = b.row y) : a = b := by
  have hb : a.bytes = b.bytes := by
    apply Rows.eq_of_rowOf (Byte.stride_pos a.width_pos)
    · intro y hy
      rw [fullRows_bytes] at hy
      have := h y hy
      unfold row at this
      rwa [← hw] at this
    · intro j hj
      rw [fullRows_bytes, ← a.size_bytes] at hj
      rw [Array.getElem?_eq_none hj, Array.getElem?_eq_none]
      rw [b.size_bytes, ← hw, ← hh, ← a.size_bytes]
      exact hj
  cases a; cases b
  simp only at hw hh hb
  subst hw hh hb
  rfl

/-! ## Pixels -/

/-- The pixel of row `y` in column `x`, padding included, clear beyond the row's bytes. -/
def bit (r : Raster) (x y : Nat) : Bool :=
  (((r.row y)[x / 8]?).map (Byte.pixel · (x % 8))).getD false

theorem stored?_eq (hx : x < 8 * stride r.width) (hy : y < r.height) :
    r.stored? x y = some (r.bit x y) := by
  have hk : x / 8 < stride r.width := by omega
  have hl : x / 8 < (r.row y).length := by rw [length_row hy]; exact hk
  have h := getElem?_row r y (x / 8)
  rw [if_pos hk, List.getElem?_eq_getElem hl] at h
  unfold stored? place bit
  rw [← h, List.getElem?_eq_getElem hl]
  rfl

theorem lt_stride_of_lt_width (hx : x < r.width) : x < 8 * stride r.width := by
  unfold stride; omega

theorem get?_of_inside (h : r.Inside x y) : r.get? x y = some (r.bit x y) := by
  unfold get?
  rw [if_pos h, stored?_eq (lt_stride_of_lt_width h.1) h.2]

theorem get?_of_not_inside (h : ¬ r.Inside x y) : r.get? x y = none := if_neg h

theorem isSet_eq (r : Raster) (x y : Nat) : r.isSet x y = (decide (r.Inside x y) && r.bit x y) := by
  unfold isSet
  by_cases h : r.Inside x y
  · rw [get?_of_inside h, decide_eq_true h]; rfl
  · rw [get?_of_not_inside h, decide_eq_false h]; rfl

theorem isSet_of_inside (h : r.Inside x y) : r.isSet x y = r.bit x y := by
  rw [isSet_eq, decide_eq_true h, Bool.true_and]

theorem inside_of_isSet (h : r.isSet x y = true) : r.Inside x y := by
  rw [isSet_eq, Bool.and_eq_true] at h
  exact of_decide_eq_true h.1

theorem get?_of_isSet (h : r.isSet x y = true) : r.get? x y = some true := by
  have hin := inside_of_isSet h
  rw [get?_of_inside hin, ← isSet_of_inside hin, h]

theorem paddingClear_iff : r.PaddingClear ↔
    ∀ y < r.height, ∀ x, r.width ≤ x → x < 8 * stride r.width → r.bit x y = false := by
  unfold PaddingClear
  constructor
  · intro h y hy x hw hx
    have := h y hy x hw hx
    rwa [stored?_eq hx hy, Option.some.injEq] at this
  · intro h y hy x hw hx
    rw [stored?_eq hx hy, h y hy x hw hx]

/-- **Rasters of one size with equal pixels, padding included, are equal.** -/
theorem eq_of_bit (hw : a.width = b.width) (hh : a.height = b.height)
    (h : ∀ y < a.height, ∀ x < 8 * stride a.width, a.bit x y = b.bit x y) : a = b := by
  apply eq_of_row hw hh
  intro y hy
  have hla := length_row hy
  have hlb : (b.row y).length = stride b.width := length_row (hh ▸ hy)
  rw [← hw] at hlb
  apply List.ext_getElem (by rw [hla, hlb])
  intro k hka hkb
  apply Byte.eq_of_pixel
  intro i hi
  have hx := h y hy (8 * k + i) (by omega)
  unfold bit at hx
  rw [show (8 * k + i) / 8 = k by omega, show (8 * k + i) % 8 = i by omega,
    List.getElem?_eq_getElem hka, List.getElem?_eq_getElem hkb] at hx
  exact hx

/-- **Rasters of one size with clear padding and equal pictures are equal.** -/
theorem eq_of_isSet (ha : a.PaddingClear) (hb : b.PaddingClear) (hw : a.width = b.width)
    (hh : a.height = b.height)
    (h : ∀ y < a.height, ∀ x < a.width, a.isSet x y = b.isSet x y) : a = b := by
  apply eq_of_bit hw hh
  intro y hy x hx
  rcases Nat.lt_or_ge x a.width with hxw | hxw
  · have := h y hy x hxw
    rwa [isSet_of_inside ⟨hxw, hy⟩, isSet_of_inside ⟨hw ▸ hxw, hh ▸ hy⟩] at this
  · rw [paddingClear_iff.mp ha y hy x hxw hx,
      paddingClear_iff.mp hb y (hh ▸ hy) x (hw ▸ hxw) (hw ▸ hx)]

theorem bit_template (hy : y < r.height) : r.template.bit x y = false := by
  unfold bit
  rw [row_template hy, List.getElem?_replicate]
  split <;> simp

theorem bit_update (hf : Rows.KeepsLength (stride r.width) r.height f) (hy : y < r.height) :
    (r.update s f).bit x y = (((f y (r.row y))[x / 8]?).map (Byte.pixel · (x % 8))).getD false := by
  unfold bit
  rw [row_update hf hy]

/-- Masking the last byte of a row clears the padding and keeps the picture. -/
theorem pixel_maskLast {row : List UInt8} {w : Nat} (hl : row.length = stride w)
    (hx : x < 8 * stride w) :
    (((Byte.maskLast (Byte.lastMask w) row)[x / 8]?).map (Byte.pixel · (x % 8))).getD false =
      (decide (x < w) && ((row[x / 8]?).map (Byte.pixel · (x % 8))).getD false) := by
  have hk : x / 8 < row.length := by rw [hl]; omega
  rw [Byte.getElem?_maskLast, List.getElem?_eq_getElem hk]
  simp only [Option.map_some, Option.getD_some]
  split
  next h =>
    rw [Byte.pixel_and, Byte.pixel_lastMask w (Nat.mod_lt x (by decide)), Bool.and_comm]
    congr 1
    rw [hl] at h
    unfold stride at h
    exact decide_eq_decide.mpr (by omega)
  next h =>
    rw [hl] at h hk
    unfold stride at h hk
    rw [decide_eq_true (by omega : x < w), Bool.true_and]

theorem bit_clearPadding (hy : y < r.height) (hx : x < 8 * stride r.width) :
    r.clearPadding.bit x y = (decide (x < r.width) && r.bit x y) := by
  unfold bit
  rw [row_clearPadding hy]
  exact pixel_maskLast (length_row hy) hx

theorem paddingClear_clearPadding (r : Raster) : r.clearPadding.PaddingClear := by
  rw [paddingClear_iff]
  intro y hy x hw hx
  rw [width_clearPadding] at hw hx
  rw [bit_clearPadding (r := r) hy hx, decide_eq_false (Nat.not_lt.mpr hw), Bool.false_and]

theorem isSet_clearPadding (r : Raster) (x y : Nat) : r.clearPadding.isSet x y = r.isSet x y := by
  rw [isSet_eq, isSet_eq]
  by_cases h : r.Inside x y
  · have h2 : r.clearPadding.Inside x y := h
    rw [decide_eq_true h, decide_eq_true h2,
      bit_clearPadding h.2 (lt_stride_of_lt_width h.1), decide_eq_true h.1]
    rfl
  · have h2 : ¬ r.clearPadding.Inside x y := h
    rw [decide_eq_false h, decide_eq_false h2]
    rfl

theorem paddingClear_template (r : Raster) : r.template.PaddingClear :=
  paddingClear_iff.mpr fun _ hy _ _ _ => bit_template hy

/-! ## Writing a pixel -/

/-- The places of two points agree, in byte and in pixel, iff their distances from the first pixel
of the buffer do. -/
theorem place_eq_iff (r : Raster) (x y x' y' : Nat) :
    (r.place x y = r.place x' y' ∧ x % 8 = x' % 8) ↔
      8 * stride r.width * y + x = 8 * stride r.width * y' + x' := by
  unfold place
  rw [Nat.mul_assoc, Nat.mul_assoc]
  generalize stride r.width * y = p
  generalize stride r.width * y' = q
  omega

/-- **Read after write**: one pixel of the buffer holds `v`, all others what they held. -/
theorem stored?_put (r : Raster) (x y : Nat) (v : Bool) (x' y' : Nat) :
    (r.put x y v).stored? x' y' =
      if 8 * stride r.width * y + x = 8 * stride r.width * y' + x' then
        (r.stored? x y).map fun _ => v
      else r.stored? x' y' := by
  have hp : (r.put x y v).place x' y' = r.place x' y' := rfl
  unfold stored?
  rw [hp]
  show ((r.bytes.modify (r.place x y) _)[r.place x' y']?).map _ = _
  rw [Array.getElem?_modify]
  by_cases h : 8 * stride r.width * y + x = 8 * stride r.width * y' + x'
  · have hq := (place_eq_iff r x y x' y').mpr h
    rw [if_pos h, if_pos hq.1, hq.1]
    cases r.bytes[r.place x' y']? with
    | none => rfl
    | some b => simp [Byte.pixel_put, hq.2]
  · rw [if_neg h]
    have hq := mt (place_eq_iff r x y x' y').mp h
    by_cases hb : r.place x y = r.place x' y'
    · rw [if_pos hb]
      cases r.bytes[r.place x' y']? with
      | none => rfl
      | some b =>
        have hm : ¬ x % 8 = x' % 8 := fun hm => hq ⟨hb, hm⟩
        simp [Byte.pixel_put, hm]
    · rw [if_neg hb]

@[simp] theorem width_put (r : Raster) (x y : Nat) (v : Bool) : (r.put x y v).width = r.width := rfl

@[simp] theorem height_put (r : Raster) (x y : Nat) (v : Bool) :
    (r.put x y v).height = r.height := rfl

/-- A column below the length of a row and its row are read off the distance from the
first pixel. -/
theorem distance_eq_iff {n x' y' : Nat} (hx : x < n) (hx' : x' < n) :
    n * y + x = n * y' + x' ↔ x = x' ∧ y = y' := by
  constructor
  · intro h
    have hmod := congrArg (· % n) h
    have hdiv := congrArg (· / n) h
    simp only [Nat.mul_add_mod, Nat.mod_eq_of_lt hx, Nat.mod_eq_of_lt hx'] at hmod
    simp only [Nat.mul_add_div (Nat.zero_lt_of_lt hx), Nat.div_eq_of_lt hx, Nat.div_eq_of_lt hx',
      Nat.add_zero] at hdiv
    exact ⟨hmod, hdiv⟩
  · rintro ⟨rfl, rfl⟩
    rfl

theorem isSet_put (h : r.Inside x y) (v : Bool) (x' y' : Nat) :
    (r.put x y v).isSet x' y' = if x = x' ∧ y = y' then v else r.isSet x' y' := by
  unfold isSet get?
  by_cases h' : r.Inside x' y'
  · have hput : (r.put x y v).Inside x' y' := h'
    have hx := lt_stride_of_lt_width h.1
    rw [if_pos h', if_pos hput, stored?_put, stored?_eq hx h.2]
    simp only [distance_eq_iff hx (lt_stride_of_lt_width h'.1)]
    split <;> rfl
  · have hput : ¬ (r.put x y v).Inside x' y' := h'
    rw [if_neg h', if_neg hput, if_neg]
    rintro ⟨rfl, rfl⟩
    exact h' h

theorem PaddingClear.put (hp : r.PaddingClear) (h : r.Inside x y) (v : Bool) :
    (r.put x y v).PaddingClear := by
  intro y' hy' x' hw hx'
  have hw' : r.width ≤ x' := hw
  have hlt := h.1
  rw [stored?_put, if_neg, hp y' hy' x' hw hx']
  intro hplace
  have := ((distance_eq_iff (lt_stride_of_lt_width hlt) hx').mp hplace).1
  omega

theorem put?_eq (h : r.Inside x y) (v : Bool) : r.put? x y v = some (r.put x y v) := by
  have hk := Byte.div_lt_stride h.1
  have hy := Nat.mul_le_mul_left (stride r.width) (Nat.succ_le_of_lt h.2)
  rw [Nat.succ_eq_add_one, Nat.mul_add, Nat.mul_one] at hy
  unfold put? place
  rw [if_pos (by rw [r.size_bytes]; omega)]

/-- The write comes after both checks, so that a point outside the picture changes nothing. -/
theorem runOn_write (r : Raster) (x y : Nat) (v : Bool) : (write x y v).runOn r =
    if r.width ≤ x then (.error (.indexOutOfBounds x r.width), r)
    else if r.height ≤ y then (.error (.indexOutOfBounds y r.height), r)
    else (.ok (), r.put x y v) := by
  unfold write
  rw [Held.runOn_get_bind]
  split
  · rfl
  · split <;> rfl

theorem write_keepsOnError (x y : Nat) (v : Bool) : (write x y v).KeepsOnError := by
  refine .get_bind fun r => ?_
  split
  · exact .throw _
  · split
    · exact .throw _
    · exact .set _

theorem set?_eq (r : Raster) (x y : Nat) (v : Bool) : r.set? x y v =
    if r.width ≤ x then .error (.indexOutOfBounds x r.width)
    else if r.height ≤ y then .error (.indexOutOfBounds y r.height)
    else .ok (r.put x y v) := by
  unfold set? Held.left
  rw [runOn_write]
  split
  · rfl
  · split <;> rfl

theorem isSet_template (r : Raster) (x y : Nat) : r.template.isSet x y = false := by
  rw [isSet_eq]
  by_cases h : r.template.Inside x y
  · rw [bit_template (r := r) h.2, Bool.and_false]
  · rw [decide_eq_false h, Bool.false_and]

/-! ## Counting pixels -/

theorem foldl_count_of_clear {l : List UInt8} (h : ∀ b ∈ l, Byte.count b = 0) (n : Nat) :
    l.foldl (fun n b => n + Byte.count b) n = n := by
  induction l generalizing n with
  | nil => rfl
  | cons b l ih =>
    rw [List.foldl_cons, h b List.mem_cons_self, Nat.add_zero]
    exact ih (fun b hb => h b (List.mem_cons_of_mem _ hb)) n

theorem foldl_count_succ (l : List UInt8) (n : Nat) :
    l.foldl (fun n b => n + Byte.count b) (n + 1) =
      l.foldl (fun n b => n + Byte.count b) n + 1 := by
  induction l generalizing n with
  | nil => rfl
  | cons b l ih => rw [List.foldl_cons, List.foldl_cons, Nat.add_right_comm, ih]

@[simp] theorem count_template (r : Raster) : r.template.count = 0 := by
  unfold count
  rw [← Array.foldl_toList]
  refine foldl_count_of_clear (fun b hb => ?_) 0
  have hzero : b = 0 := (Array.mem_replicate.mp (Array.mem_toList_iff.mp hb)).2
  rw [hzero]
  decide

theorem count_put (h : r.Inside x y) (hclear : r.isSet x y = false) :
    (r.put x y true).count = r.count + 1 := by
  have hs := stored?_eq (lt_stride_of_lt_width h.1) h.2
  rw [← isSet_of_inside h, hclear] at hs
  obtain ⟨b, hb, hpixel⟩ := Option.map_eq_some_iff.mp hs
  obtain ⟨hlt, hget⟩ := List.getElem?_eq_some_iff.mp (Array.getElem?_toList.trans hb)
  unfold count put
  rw [← Array.foldl_toList, ← Array.foldl_toList, Array.toList_modify,
    List.modify_eq_take_cons_drop hlt, hget]
  conv =>
    rhs
    rw [← List.take_append_drop (r.place x y) r.bytes.toList, List.drop_eq_getElem_cons hlt, hget]
  rw [List.foldl_append, List.foldl_append, List.foldl_cons, List.foldl_cons,
    Byte.count_put (Nat.mod_lt x (by decide)) hpixel, ← Nat.add_assoc, foldl_count_succ]

end Raster

end Bitplane
