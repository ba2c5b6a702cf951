import Bitplane.Proofs.Raster.PixelSets

/-! # Packing and unpacking

A grid of pixels is packed exactly if it has two rows and columns and as many entries as its sides
say. Unpacking gives the grid back; packing what was unpacked gives the raster with its padding
cleared, which is what its bytes alone make too.

* `clearPadding_eq_tabulate`: with its padding cleared a raster is that of its pixels.
* `toBits_tabulate`: unpacking gives back the grid whose raster was made, and `ofBits_toBits`,
  `ofBytes_bytes`: packing the unpacked pixels or the bytes clears the padding.
* `get?_eq_some_toBits`: a pixel read, unpacked and taken as a label is the same.
* `packing_inverts_unpacking`: the two ways round, and when packing is refused. -/

namespace Bitplane

namespace Raster

variable {r : Raster} {bits : Array Bool} {w h i x y : Nat}

theorem clearPadding_eq_tabulate (r : Raster) : r.clearPadding = r.tabulate r.isSet := by
  rw [← tabulate_isSet r.paddingClear_clearPadding]
  exact tabulate_congr rfl rfl fun x y _ => isSet_clearPadding r x y

theorem clearPadding_eq_iff : r.clearPadding = r ↔ r.PaddingClear := by
  constructor
  · intro h
    rw [← h]
    exact r.paddingClear_clearPadding
  · intro hp
    rw [clearPadding_eq_tabulate, tabulate_isSet hp]

/-- **The unpacked pixels are listed row by row.** -/
theorem getElem?_toBits_pointAt (r : Raster) (hi : i < r.width * r.height) :
    r.toBits[i]? = some (r.isSet (r.pointAt i).x (r.pointAt i).y) := by
  have hin := inside_pointAt hi
  rw [← getElem?_toBits hin.1 hin.2]
  unfold pointAt
  simp only [Nat.div_add_mod]

theorem get?_eq_some_toBits (hin : r.Inside x y) : ∃ v, r.get? x y = some v ∧
    r.toBits[y * r.width + x]? = some v ∧ r.levels.get? x y = some v.toNat := by
  refine ⟨r.isSet x y, ?_, ?_, get?_levels hin.1 hin.2⟩
  · rw [get?_of_inside hin, isSet_of_inside hin]
  · rw [Nat.mul_comm]
    exact getElem?_toBits hin.1 hin.2

theorem toBits_tabulate (r : Raster) (hs : bits.size = r.width * r.height) :
    (r.tabulate fun x y => bits[y * r.width + x]?.getD false).toBits = bits := by
  refine Array.ext ((size_toBits _).trans hs.symm) fun i hi hi' => ?_
  have hlt : i < r.width * r.height := hs ▸ hi'
  have hin : r.Inside (r.pointAt i).x (r.pointAt i).y := inside_pointAt hlt
  have hplace : (r.pointAt i).y * r.width + (r.pointAt i).x = i := placeOf_pointAt r i
  have h := getElem?_toBits_pointAt (r.tabulate fun x y => bits[y * r.width + x]?.getD false) hlt
  rw [Array.getElem?_eq_getElem hi, Option.some.injEq] at h
  refine h.trans ((isSet_tabulate _ _ _).trans ?_)
  show (decide (r.Inside (r.pointAt i).x (r.pointAt i).y) &&
    bits[(r.pointAt i).y * r.width + (r.pointAt i).x]?.getD false) = bits[i]
  rw [decide_eq_true hin, Bool.true_and, hplace, Array.getElem?_eq_getElem hi', Option.getD_some]

/-- **Packing what was unpacked clears the padding.** -/
theorem ofBits_toBits (hw : 2 ≤ r.width) (hh : 2 ≤ r.height) :
    ofBits? r.toBits r.width r.height = .ok r.clearPadding := by
  rw [ofBits?_eq hw hh r.size_toBits, clearPadding_eq_tabulate]
  congr 1
  refine tabulate_congr rfl rfl fun x y hin => ?_
  have hin' : r.Inside x y := hin
  rw [Nat.mul_comm, getElem?_toBits hin'.1 hin'.2, Option.getD_some]

theorem ofBytes_bytes (r : Raster) : ofBytes? r.width r.height r.bytes = .ok r.clearPadding := by
  unfold ofBytes?
  rw [dif_pos ⟨r.width_pos, r.height_pos⟩, dif_pos r.size_bytes]

/-- **Packing and unpacking are inverse**, but for the padding. Packing is refused for a side below
two, and else for a wrong number of pixels; every other grid of pixels is packed, and unpacking
gives it back. A raster unpacked and packed again, or made from its bytes, has its padding cleared,
and so is itself again exactly if its padding is clear. Each pixel of a picture is the same whether
it is read, unpacked or taken as a label. -/
theorem packing_inverts_unpacking (bits : Array Bool) (w h : Nat) (r : Raster) :
    (ofBits? bits w h = .error (.tooSmall w h 2) ↔ w < 2 ∨ h < 2) ∧
    (ofBits? bits w h = .error (.bufferSize (w * h) bits.size) ↔
      2 ≤ w ∧ 2 ≤ h ∧ bits.size ≠ w * h) ∧
    (2 ≤ w → 2 ≤ h → bits.size = w * h →
      ∃ p, ofBits? bits w h = .ok p ∧ p.width = w ∧ p.height = h ∧ p.toBits = bits) ∧
    (2 ≤ r.width → 2 ≤ r.height →
      ofBits? r.toBits r.width r.height = .ok r.clearPadding ∧
      ofBytes? r.width r.height r.bytes = .ok r.clearPadding ∧
      (r.clearPadding = r ↔ r.PaddingClear)) ∧
    ∀ x y, r.Inside x y → ∃ v, r.get? x y = some v ∧ r.toBits[y * r.width + x]? = some v ∧
      r.levels.get? x y = some v.toNat := by
  have hok : 2 ≤ w → 2 ≤ h → bits.size = w * h →
      ∃ p, ofBits? bits w h = .ok p ∧ p.width = w ∧ p.height = h ∧ p.toBits = bits :=
    fun hw hh hs => ⟨_, ofBits?_eq hw hh hs, rfl, rfl, toBits_tabulate _ hs⟩
  refine ⟨⟨fun he => ?_, ofBits?_tooSmall bits⟩, ⟨fun he => ?_, fun hs => ?_⟩, hok,
    fun hw hh => ⟨ofBits_toBits hw hh, ofBytes_bytes r, clearPadding_eq_iff⟩,
    fun x y hin => get?_eq_some_toBits hin⟩
  · by_contra hsides
    by_cases hs : bits.size = w * h
    · obtain ⟨p, hp, -⟩ := hok (by omega) (by omega) hs
      rw [hp] at he
      cases he
    · rw [ofBits?_bufferSize (by omega) (by omega) hs] at he
      cases he
  · by_cases hsides : w < 2 ∨ h < 2
    · rw [ofBits?_tooSmall bits hsides] at he
      cases he
    · refine ⟨by omega, by omega, fun hs => ?_⟩
      obtain ⟨p, hp, -⟩ := hok (by omega) (by omega) hs
      rw [hp] at he
      cases he
  · exact ofBits?_bufferSize hs.1 hs.2.1 hs.2.2

/-- Six pixels in two rows, and a raster whose padding is set. -/
theorem packing_inverts_unpacking_padded :
    let bits : Array Bool := #[true, false, true, false, false, true]
    let r : Raster := ⟨11, 2, #[0xa5, 0x5f, 0x3c, 0xe0], by decide, by decide, by decide⟩
    (2 ≤ 3 ∧ 2 ≤ 2 ∧ bits.size = 3 * 2 ∧
      ∃ p, ofBits? bits 3 2 = .ok p ∧ p.width = 3 ∧ p.height = 2 ∧ p.toBits = bits) ∧
    (2 ≤ r.width ∧ 2 ≤ r.height ∧ ofBits? r.toBits 11 2 = .ok r.clearPadding ∧
      ofBytes? 11 2 r.bytes = .ok r.clearPadding ∧ (r.clearPadding = r ↔ r.PaddingClear)) ∧
    r.Inside 10 1 ∧ ∃ v, r.get? 10 1 = some v ∧ r.toBits[1 * 11 + 10]? = some v ∧
      r.levels.get? 10 1 = some v.toNat := by
  intro bits r
  obtain ⟨-, -, hpack, hunpack, hread⟩ := packing_inverts_unpacking bits 3 2 r
  exact ⟨⟨by decide, by decide, by decide, hpack (by decide) (by decide) (by decide)⟩,
    ⟨by decide, by decide, hunpack (by decide) (by decide)⟩, by decide, hread 10 1 (by decide)⟩

end Raster

end Bitplane
