import Bitplane.Byte.Basic

/-! # The pixels of a byte

What each operation on bytes does to the pixels, and that the pixels determine the byte.

* `pixel_eq_testBit`: pixel `i` is bit `7 - i` of the byte's number.
* `pixel_and`, `pixel_or`, `pixel_xor`, `pixel_not`, `pixel_shiftLeft`, `pixel_shiftRight`: the
  operations act on each pixel, or move all of them by one.
* `pixel_put`, `pixel_ofPixels`, `pixel_lastMask`, `level_eq`: writing, packing, masking, reading.
* `eq_of_pixel`: bytes with equal pixels are equal.
* `count_put`: a clear pixel that is set raises the count by one. -/

namespace Bitplane.Byte

theorem testBit_mask (i k : Nat) : (mask i).toNat.testBit k = decide (7 - i % 8 = k) := by
  have h0 : UInt8.toNat 0x80 = 128 := rfl
  have h : ∀ j < 8, 128 >>> j = 2 ^ (7 - j) := by decide
  unfold mask
  rw [UInt8.toNat_shiftRight, UInt8.toNat_ofNat', h0, Nat.mod_mod_of_dvd i (by decide : 8 ∣ 2 ^ 8),
    h _ (Nat.mod_lt i (by decide)), Nat.testBit_two_pow]

/-- **Pixel `i` is bit `7 - i` of the byte's number.** -/
theorem pixel_eq_testBit (b : UInt8) (i : Nat) : pixel b i = b.toNat.testBit (7 - i % 8) := by
  have h : ∀ k, (b &&& mask i).toNat.testBit k =
      (b.toNat.testBit k && decide (7 - i % 8 = k)) := by
    intro k
    rw [UInt8.toNat_and, Nat.testBit_and, testBit_mask]
  unfold pixel
  cases hb : b.toNat.testBit (7 - i % 8)
  · have h0 : b &&& mask i = 0 := by
      apply UInt8.toNat_inj.mp
      apply Nat.eq_of_testBit_eq
      intro k
      rw [h k]
      by_cases hk : 7 - i % 8 = k
      · rw [← hk, hb]; simp
      · simp [hk]
    rw [h0]; rfl
  · rw [bne_iff_ne]
    intro h0
    have := h (7 - i % 8)
    rw [h0, hb] at this
    simp at this

@[simp] theorem pixel_zero (i : Nat) : pixel 0 i = false := by simp [pixel_eq_testBit]

@[simp] theorem pixel_and (a b : UInt8) (i : Nat) :
    pixel (a &&& b) i = (pixel a i && pixel b i) := by
  simp [pixel_eq_testBit]

@[simp] theorem pixel_or (a b : UInt8) (i : Nat) :
    pixel (a ||| b) i = (pixel a i || pixel b i) := by
  simp [pixel_eq_testBit]

@[simp] theorem pixel_xor (a b : UInt8) (i : Nat) :
    pixel (a ^^^ b) i = (pixel a i ^^ pixel b i) := by
  simp [pixel_eq_testBit]

@[simp] theorem pixel_not (b : UInt8) (i : Nat) : pixel (~~~ b) i = !pixel b i := by
  have h : 7 - i % 8 < 8 := by omega
  rw [pixel_eq_testBit, pixel_eq_testBit, UInt8.toNat_not, UInt8.size]
  have := Nat.testBit_two_pow_sub_succ b.toNat_lt (7 - i % 8)
  rw [show 256 - 1 - b.toNat = 2 ^ 8 - (b.toNat + 1) by omega, this]
  simp [h]

theorem eq_of_pixel {a b : UInt8} (h : ∀ i < 8, pixel a i = pixel b i) : a = b := by
  apply UInt8.toNat_inj.mp
  apply Nat.eq_of_testBit_eq
  intro k
  rcases Nat.lt_or_ge k 8 with hk | hk
  · have := h (7 - k) (by omega)
    rw [pixel_eq_testBit, pixel_eq_testBit, show 7 - (7 - k) % 8 = k by omega] at this
    exact this
  · have hp : 2 ^ 8 ≤ 2 ^ k := Nat.pow_le_pow_right (by decide) hk
    rw [Nat.testBit_lt_two_pow (Nat.lt_of_lt_of_le a.toNat_lt hp),
      Nat.testBit_lt_two_pow (Nat.lt_of_lt_of_le b.toNat_lt hp)]

theorem pixel_mask (i j : Nat) : pixel (mask i) j = decide (i % 8 = j % 8) := by
  rw [pixel_eq_testBit, testBit_mask]
  exact decide_eq_decide.mpr (by omega)

theorem pixel_put (b : UInt8) (i j : Nat) (v : Bool) :
    pixel (put b i v) j = if i % 8 = j % 8 then v else pixel b j := by
  unfold put
  by_cases h : i % 8 = j % 8 <;> cases v <;> simp [pixel_mask, h]

theorem pixel_shiftLeft (b : UInt8) {i : Nat} (hi : i < 8) :
    pixel (b <<< 1) i = if i = 7 then false else pixel b (i + 1) := by
  have h1 : (1 : UInt8).toNat % 8 = 1 := rfl
  rw [pixel_eq_testBit, pixel_eq_testBit, UInt8.toNat_shiftLeft, h1, Nat.testBit_mod_two_pow,
    Nat.testBit_shiftLeft, Nat.mod_eq_of_lt hi]
  by_cases h : i = 7
  · simp [h]
  · rw [if_neg h, show 7 - i - 1 = 7 - (i + 1) % 8 by omega, decide_eq_true (by omega : 7 - i < 8),
      decide_eq_true (by omega : 7 - i ≥ 1), Bool.true_and, Bool.true_and]

theorem pixel_shiftRight (b : UInt8) {i : Nat} (hi : i < 8) :
    pixel (b >>> 1) i = if i = 0 then false else pixel b (i - 1) := by
  have h1 : (1 : UInt8).toNat % 8 = 1 := rfl
  rw [pixel_eq_testBit, pixel_eq_testBit, UInt8.toNat_shiftRight, h1, Nat.testBit_shiftRight,
    Nat.mod_eq_of_lt hi]
  by_cases h : i = 0
  · rw [if_pos h, h]
    exact Nat.testBit_lt_two_pow b.toNat_lt
  · rw [if_neg h, show 1 + (7 - i) = 7 - (i - 1) % 8 by omega]

theorem pixel_place {i k : Nat} (hi : i < 8) (hk : k < 8) (v : Bool) :
    pixel (place v k) i = (v && decide (i = k)) := by
  have h : ∀ v, ∀ k < 8, ∀ i < 8, pixel (place v k) i = (v && decide (i = k)) := by decide
  exact h v k hk i hi

theorem pixel_foldl_place {i : Nat} (hi : i < 8) (vs : List Bool) : ∀ (k : Nat) (acc : UInt8),
    k + vs.length ≤ 8 →
    pixel ((vs.zipIdx k).foldl (fun acc vi => acc ||| place vi.1 vi.2) acc) i =
      (pixel acc i || (decide (k ≤ i) && vs[i - k]?.getD false)) := by
  induction vs with
  | nil => intro k acc _; simp
  | cons v vs ih =>
    intro k acc hk
    rw [List.length_cons] at hk
    rw [List.zipIdx_cons, List.foldl_cons, ih (k + 1) _ (by omega), pixel_or,
      pixel_place hi (by omega)]
    rcases Nat.lt_trichotomy i k with h | h | h
    · rw [decide_eq_false (by omega : ¬ i = k), decide_eq_false (by omega : ¬ k + 1 ≤ i),
        decide_eq_false (by omega : ¬ k ≤ i)]
      simp
    · rw [decide_eq_true h, decide_eq_false (by omega : ¬ k + 1 ≤ i),
        decide_eq_true (by omega : k ≤ i), h]
      simp
    · rw [decide_eq_false (by omega : ¬ i = k), decide_eq_true (by omega : k + 1 ≤ i),
        decide_eq_true (by omega : k ≤ i), show i - k = (i - (k + 1)) + 1 by omega]
      simp

/-- **The pixels of a packed list are those of the list**, clear behind its end. -/
theorem pixel_ofPixels {vs : List Bool} {i : Nat} (hi : i < 8) (hvs : vs.length ≤ 8) :
    pixel (ofPixels vs) i = vs[i]?.getD false := by
  unfold ofPixels
  rw [pixel_foldl_place hi vs 0 0 (by omega)]
  simp

theorem pixel_lastMask (w : Nat) {i : Nat} (hi : i < 8) :
    pixel (lastMask w) i = decide (w % 8 = 0 ∨ i < w % 8) := by
  have h : ∀ m < 8, ∀ i < 8, pixel (if m = 0 then 0xff else ~~~ ((0xff : UInt8) >>> UInt8.ofNat m)) i
      = decide (m = 0 ∨ i < m) := by decide
  exact h (w % 8) (Nat.mod_lt w (by decide)) i hi

theorem level_eq (b : UInt8) {i : Nat} (hi : i < 8) : level b i = (pixel b i).toNat := by
  have h1 : UInt8.toNat 1 = 2 ^ 1 - 1 := rfl
  have h7 : (UInt8.ofNat (7 - i)).toNat % 8 = 7 - i := by
    rw [UInt8.toNat_ofNat']
    omega
  unfold level
  rw [UInt8.toNat_and, UInt8.toNat_shiftRight, h1, Nat.and_two_pow_sub_one_eq_mod, h7,
    pixel_eq_testBit, Nat.mod_eq_of_lt hi, Nat.testBit_eq_decide_div_mod_eq,
    Nat.shiftRight_eq_div_pow]
  have := Nat.mod_two_eq_zero_or_one (b.toNat / 2 ^ (7 - i))
  rcases this with h | h <;> simp [h]

theorem getElem?_pixels (b : UInt8) {i : Nat} (hi : i < 8) : (pixels b)[i]? = some (pixel b i) := by
  simp [pixels, hi]

theorem pixels_put (b : UInt8) {i : Nat} (hi : i < 8) (v : Bool) :
    pixels (put b i v) = (pixels b).set i v := by
  apply List.ext_getElem?
  intro j
  rw [List.getElem?_set]
  by_cases hj : j < 8
  · rw [getElem?_pixels _ hj, getElem?_pixels _ hj, pixel_put, Nat.mod_eq_of_lt hi,
      Nat.mod_eq_of_lt hj]
    by_cases h : i = j <;> simp [h, hj]
  · rw [if_neg (by omega), List.getElem?_eq_none (by simp; omega),
      List.getElem?_eq_none (by simp; omega)]

theorem count_put {b : UInt8} {i : Nat} (hi : i < 8) (h : pixel b i = false) :
    count (put b i true) = count b + 1 := by
  have hlen : i < (pixels b).length := by rwa [length_pixels]
  have hget : (pixels b)[i] = false := by
    rw [← h]
    exact Option.some.inj ((List.getElem?_eq_getElem hlen).symm.trans (getElem?_pixels b hi))
  unfold count
  rw [pixels_put b hi, List.count_set hlen, hget]
  simp

/-! ## Rows of bytes -/

theorem getElem?_maskLast (m : UInt8) : ∀ (r : List UInt8) (k : Nat),
    (maskLast m r)[k]? = r[k]?.map fun b => if k + 1 = r.length then b &&& m else b
  | [], k => by simp [maskLast]
  | [b], 0 => by simp [maskLast]
  | [b], k + 1 => by simp [maskLast]
  | b :: c :: r, 0 => by simp [maskLast]
  | b :: c :: r, k + 1 => by
    rw [maskLast, List.getElem?_cons_succ, getElem?_maskLast m (c :: r) k, List.getElem?_cons_succ]
    simp

end Bitplane.Byte
