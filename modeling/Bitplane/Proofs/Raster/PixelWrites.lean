import Bitplane.Proofs.Region.ExtractionPasses
import Bitplane.Proofs.WorkbenchRuns

/-! # Pixels written one at a time

The rows of a raster lie one behind the other, so that a point stands for the bit at some distance
from the first of the buffer, whether or not it lies in the picture: a column beyond the row leads
into the padding, or into a row below. A write that does not check its point changes that bit and no
other, and fails only where there is none. One that checks it changes one pixel of the picture, and
no padding.

* `distance`, `bufferBit?`: the bit that a point stands for; `stored?_eq_bufferBit?`: it is what is
  read.
* `bufferBit?_put`: read after write for all pairs of bits.
* `BitWritten`, `PixelWritten`, `Outside`: what each write changes, and what a point is refused for.
* `pixel_writes_change_one_bit`: the two writes do this. -/

namespace Bitplane

open Byte (stride)

open Region (wordLimit longLimit)

open Workbench (Edit Fault runOn_change step_error)

namespace Raster

variable {r w : Raster} {e : Error} {v : Bool} {i j k x y x' y' : Nat}

/-! ## Bits of the buffer -/

/-- **The distance of a point from the first pixel**, in rows that lie one behind the other. -/
def distance (r : Raster) (x y : Nat) : Nat := 8 * stride r.width * y + x

/-- The number of bits of the buffer. -/
def bufferBits (r : Raster) : Nat := 8 * stride r.width * r.height

/-- **A bit of the buffer**, counted from the highest of the first byte; none beyond the end. -/
def bufferBit? (r : Raster) (k : Nat) : Option Bool :=
  (r.bytes[k / 8]?).map fun b => b.toNat.testBit (7 - k % 8)

theorem place_eq_distance_div (r : Raster) (x y : Nat) : r.place x y = r.distance x y / 8 := by
  unfold place distance
  rw [Nat.mul_assoc]
  omega

theorem mod_eq_distance_mod (r : Raster) (x y : Nat) : x % 8 = r.distance x y % 8 := by
  unfold distance
  rw [Nat.mul_assoc]
  omega

theorem distance_zero (r : Raster) (k : Nat) : r.distance k 0 = k := by
  unfold distance
  omega

theorem stored?_eq_bufferBit? (r : Raster) (x y : Nat) :
    r.stored? x y = r.bufferBit? (r.distance x y) := by
  unfold stored? bufferBit?
  rw [← place_eq_distance_div, ← mod_eq_distance_mod]
  refine congrArg (Option.map · _) (funext fun b => ?_)
  rw [Byte.pixel_eq_testBit, Nat.mod_mod]

theorem bufferBit?_eq_none_iff : r.bufferBit? k = none ↔ r.bufferBits ≤ k := by
  unfold bufferBit? bufferBits
  rw [Option.map_eq_none_iff, Array.getElem?_eq_none_iff, r.size_bytes, Nat.mul_assoc]
  omega

theorem stored?_eq_none_iff : r.stored? x y = none ↔ r.bufferBits ≤ r.distance x y := by
  rw [stored?_eq_bufferBit?, bufferBit?_eq_none_iff]

theorem put?_eq_none_iff : r.put? x y v = none ↔ r.bufferBits ≤ r.distance x y := by
  unfold put? bufferBits
  rw [r.size_bytes, place_eq_distance_div, Nat.mul_assoc]
  split
  next h => exact iff_of_false (by simp) (by omega)
  next h => exact iff_of_true rfl (by omega)

theorem eq_put_of_put? (h : r.put? x y v = some w) : w = r.put x y v := by
  unfold put? at h
  split at h
  next => exact (Option.some.inj h).symm
  next => cases h

/-- **Read after write**, for all pairs of bits. -/
theorem bufferBit?_put (r : Raster) (x y : Nat) (v : Bool) (j : Nat) :
    (r.put x y v).bufferBit? j =
      if j = r.distance x y then (r.bufferBit? j).map fun _ => v else r.bufferBit? j := by
  have h := stored?_put r x y v j 0
  change _ = if r.distance x y = r.distance j 0 then _ else _ at h
  rw [stored?_eq_bufferBit?, stored?_eq_bufferBit?, stored?_eq_bufferBit?, distance_zero,
    distance_zero] at h
  rw [h]
  by_cases hd : j = r.distance x y
  · rw [if_pos hd, if_pos hd.symm, hd]
  · rw [if_neg hd, if_neg (Ne.symm hd)]

/-- **The place of a byte fits a word of 64 bits**, if sides and coordinates fit one of 32. -/
theorem place_lt_longLimit (hw : r.width < wordLimit) (hx : x < wordLimit) (hy : y < wordLimit) :
    r.place x y < longLimit := by
  have hstride : stride r.width ≤ 0x20000000 := by
    unfold wordLimit at hw
    unfold stride
    omega
  have hrow : stride r.width * y ≤ 0x20000000 * y := Nat.mul_le_mul_right y hstride
  unfold wordLimit at hx hy
  unfold place longLimit
  omega

/-! ## The two writes -/

/-- **One bit of the buffer is written**: it holds `v`, and all others what they held. -/
structure BitWritten (r : Raster) (k : Nat) (v : Bool) (w : Raster) : Prop where
  size_eq : w.size = r.size
  written : w.bufferBit? k = some v
  kept : ∀ j, j ≠ k → w.bufferBit? j = r.bufferBit? j
  /-- Hence any point that is read: it is that bit, or is as before. -/
  stored?_eq : ∀ x' y', w.stored? x' y' = if r.distance x' y' = k then some v else r.stored? x' y'

/-- **One pixel of the picture is written**: it holds `v`, all others and the padding what they
held. -/
structure PixelWritten (r : Raster) (x y : Nat) (v : Bool) (w : Raster) : Prop where
  size_eq : w.size = r.size
  get?_eq : ∀ x' y', w.get? x' y' = if x' = x ∧ y' = y then some v else r.get? x' y'
  padding_eq : ∀ y' < r.height, ∀ x', r.width ≤ x' → x' < 8 * stride r.width →
    w.stored? x' y' = r.stored? x' y'

/-- **What a point outside the picture is refused for**: its column, or, if that is none to object
to, its row. -/
inductive Outside (r : Raster) (x y : Nat) : Error → Prop
  | column (hx : r.width ≤ x) : Outside r x y (.indexOutOfBounds x r.width)
  | row (hx : x < r.width) (hy : r.height ≤ y) : Outside r x y (.indexOutOfBounds y r.height)

theorem bitWritten_put? (h : r.put? x y v = some w) : r.BitWritten (r.distance x y) v w := by
  have hsome : r.bufferBit? (r.distance x y) ≠ none := by
    rw [ne_eq, bufferBit?_eq_none_iff, ← put?_eq_none_iff (v := v), h]
    simp
  obtain ⟨u, hu⟩ := Option.ne_none_iff_exists'.mp hsome
  obtain rfl := eq_put_of_put? h
  have hwritten : (r.put x y v).bufferBit? (r.distance x y) = some v := by
    rw [bufferBit?_put, if_pos rfl, hu]
    rfl
  have hkept : ∀ j, j ≠ r.distance x y →
      (r.put x y v).bufferBit? j = r.bufferBit? j := fun j hj => by
    rw [bufferBit?_put, if_neg hj]
  refine ⟨rfl, hwritten, hkept, fun x' y' => ?_⟩
  rw [stored?_eq_bufferBit?, stored?_eq_bufferBit?]
  show (r.put x y v).bufferBit? (r.distance x' y') = _
  by_cases hd : r.distance x' y' = r.distance x y
  · rw [if_pos hd, hd, hwritten]
  · rw [if_neg hd, hkept _ hd]

theorem set?_of_inside (h : r.Inside x y) (v : Bool) : r.set? x y v = .ok (r.put x y v) := by
  rw [set?_eq, if_neg (Nat.not_le_of_lt h.1), if_neg (Nat.not_le_of_lt h.2)]

theorem Outside.set?_eq (h : r.Outside x y e) (v : Bool) : r.set? x y v = .error e := by
  rw [Raster.set?_eq]
  cases h with
  | column hx => rw [if_pos hx]
  | row hx hy => rw [if_neg (Nat.not_le_of_lt hx), if_pos hy]

theorem inside_or_outside (r : Raster) (x y : Nat) : r.Inside x y ∨ ∃ e, r.Outside x y e := by
  rcases Nat.lt_or_ge x r.width with hx | hx
  · rcases Nat.lt_or_ge y r.height with hy | hy
    · exact .inl ⟨hx, hy⟩
    · exact .inr ⟨_, .row hx hy⟩
  · exact .inr ⟨_, .column hx⟩

theorem set?_eq_error_iff : r.set? x y v = .error e ↔ r.Outside x y e := by
  refine ⟨fun he => ?_, fun h => h.set?_eq v⟩
  rcases inside_or_outside r x y with h | ⟨e', h⟩
  · rw [set?_of_inside h] at he
    cases he
  · obtain rfl := Except.error.inj ((h.set?_eq v).symm.trans he)
    exact h

theorem set?_eq_ok_iff : r.set? x y v = .ok w ↔ r.Inside x y ∧ w = r.put x y v := by
  rcases inside_or_outside r x y with h | ⟨e, h⟩
  · rw [set?_of_inside h, Except.ok.injEq, and_iff_right h, eq_comm]
  · rw [h.set?_eq]
    refine iff_of_false (fun heq => nomatch heq) fun ⟨hin, _⟩ => ?_
    rw [← set?_eq_error_iff (v := v), set?_of_inside hin] at h
    cases h

/-- **A write inside the picture reaches one pixel of it**, and no padding. -/
theorem pixelWritten_put (h : r.Inside x y) (v : Bool) : r.PixelWritten x y v (r.put x y v) := by
  have hx := lt_stride_of_lt_width h.1
  refine ⟨rfl, fun x' y' => ?_, fun y' hy' x' hw hx' => ?_⟩
  · by_cases h' : r.Inside x' y'
    · have hput : (r.put x y v).Inside x' y' := h'
      unfold get?
      rw [if_pos h', if_pos hput, stored?_put, stored?_eq hx h.2]
      simp only [distance_eq_iff hx (lt_stride_of_lt_width h'.1), eq_comm]
      rfl
    · have hput : ¬ (r.put x y v).Inside x' y' := h'
      rw [get?_of_not_inside h', get?_of_not_inside hput, if_neg]
      rintro ⟨rfl, rfl⟩
      exact h' h
  · have hlt := h.1
    rw [stored?_put, if_neg]
    rw [distance_eq_iff hx hx']
    omega

/-- **Writes of single pixels change one bit.** A point stands for the bit at its distance from the
first pixel, at a place that fits a word. Reading or writing it without a check fails exactly if the
buffer ends before that bit; else the write changes that bit alone, and every point reads as before
or as that bit. The write that checks its point succeeds exactly inside the picture, where it is the
other write and changes one pixel and no padding. Outside it is refused, for the column before the
row, and nothing changes. -/
theorem pixel_writes_change_one_bit (r : Raster) (x y : Nat) (v : Bool) :
    (r.width < wordLimit → x < wordLimit → y < wordLimit → r.place x y < longLimit) ∧
    (∀ x' y', r.stored? x' y' = none ↔ r.bufferBits ≤ r.distance x' y') ∧
    (r.put? x y v = none ↔ r.bufferBits ≤ r.distance x y) ∧
    (∀ w, r.put? x y v = some w → r.BitWritten (r.distance x y) v w) ∧
    ((∃ w, r.set? x y v = .ok w) ↔ r.Inside x y) ∧
    (∀ w, r.set? x y v = .ok w → r.put? x y v = some w ∧ r.PixelWritten x y v w) ∧
    (∀ e, r.set? x y v = .error e ↔ r.Outside x y e) ∧
    ∀ (b : Workbench) (i : Nat) (e : Error), b.get i = .ok r → r.Outside x y e →
      b.step (.edit (.setPixel x y v) i) = (b, .error (.raster e)) := by
  refine ⟨place_lt_longLimit, fun x' y' => stored?_eq_none_iff, put?_eq_none_iff,
    fun w => bitWritten_put?, ?_, fun w hw => ?_, fun e => set?_eq_error_iff, fun b i e hb he => ?_⟩
  · simp only [set?_eq_ok_iff, exists_and_left, exists_eq, and_true]
  · obtain ⟨hin, rfl⟩ := set?_eq_ok_iff.mp hw
    exact ⟨put?_eq hin v, pixelWritten_put hin v⟩
  · have hleft : (Edit.setPixel x y v).perform.left r = .error (.raster e) := by
      rw [Edit.perform, Held.left_adapt]
      exact congrArg (Except.mapError Fault.raster) (he.set?_eq v)
    have hanswer : (b.step (.edit (.setPixel x y v) i)).2 = .error (.raster e) :=
      (congrArg Prod.fst (runOn_change hb _)).trans hleft
    exact Prod.ext (step_error hanswer) hanswer

/-- A column beyond the bytes of its row leads into the row below, and into the picture again. -/
theorem pixel_writes_change_one_bit_below :
    let r : Raster := ⟨11, 2, #[0x00, 0x1f, 0x00, 0x00], by decide, by decide, by decide⟩
    r.width < wordLimit ∧ 18 < wordLimit ∧ 0 < wordLimit ∧ r.place 18 0 < longLimit ∧
      (∃ w, r.put? 18 0 true = some w ∧ w.bytes = #[0x00, 0x1f, 0x20, 0x00] ∧ r.BitWritten 18 true w ∧
        w.stored? 2 1 = some true) ∧
      r.Outside 18 0 (.indexOutOfBounds 18 11) ∧
      r.set? 18 0 true = .error (.indexOutOfBounds 18 11) := by
  intro r
  have hwidth : r.width < wordLimit := by decide
  have hplace : 18 < wordLimit := by decide
  have hrow : 0 < wordLimit := by decide
  have houtside : r.Outside 18 0 (.indexOutOfBounds 18 11) := .column (by decide)
  obtain ⟨hword, -, -, hput, -, -, herror, -⟩ := pixel_writes_change_one_bit r 18 0 true
  have hwritten := hput _ rfl
  have hbytes : (r.put 18 0 true).bytes = #[0x00, 0x1f, 0x20, 0x00] := by decide
  have hread := (hwritten.stored?_eq 2 1).trans (if_pos (by decide))
  exact ⟨hwidth, hplace, hrow, hword hwidth hplace hrow, ⟨_, rfl, hbytes, hwritten, hread⟩,
    houtside, (herror _).mpr houtside⟩

end Raster

end Bitplane
