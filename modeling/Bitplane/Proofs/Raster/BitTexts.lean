import Bitplane.Proofs.Raster.DrawnRows

/-! # Bytes in binary, read back

The binary text of a raster is a picture too: its digits are marks, and the blanks between the bytes
are white space. Read back, every pixel of the buffer is one of the picture, so that the padding
becomes part of it and the bytes stay what they were.

* `marks_intercalate`: blanks in a line are ignored.
* `getElem?_digits`: the digits of a row of bytes are its pixels.
* `unpadded`: the raster of the same bytes whose rows end where its bytes do.
* `rows_bitText`: the rows of the binary text have a digit for each of its pixels.
* `bitText_keeps_bytes`: it is the one that is read. -/

namespace Bitplane

open Byte (stride)

namespace Picture

variable {ls : List (List Char)} {row : List UInt8} {b : UInt8} {c s : Char}

/-! ## The pieces of a line -/

theorem mem_intercalate (h : c ∈ [s].intercalate ls) : c = s ∨ ∃ l ∈ ls, c ∈ l := by
  induction ls with
  | nil => cases h
  | cons l ls ih =>
    cases ls with
    | nil => exact .inr ⟨l, List.mem_cons_self, by rwa [List.intercalate_singleton] at h⟩
    | cons k ls =>
      rw [List.intercalate_cons_cons, List.mem_append, List.mem_append, List.mem_singleton] at h
      rcases h with (hl | rfl) | hrest
      · exact .inr ⟨l, List.mem_cons_self, hl⟩
      · exact .inl rfl
      · exact (ih hrest).imp_right fun ⟨l', hl', hc⟩ => ⟨l', List.mem_cons_of_mem l hl', hc⟩

theorem marks_append (l k : List Char) : marks (l ++ k) = marks l ++ marks k :=
  List.filter_append ..

theorem marks_intercalate (h : ∀ l ∈ ls, marks l = l) :
    marks ([' '].intercalate ls) = ls.flatten := by
  induction ls with
  | nil => rfl
  | cons l ls ih =>
    rw [List.forall_mem_cons] at h
    have hblank : marks [' '] = [] := by decide
    cases ls with
    | nil => rw [List.intercalate_singleton, h.1, List.flatten_singleton]
    | cons k ls =>
      rw [List.intercalate_cons_cons, marks_append, marks_append, hblank, h.1, ih h.2,
        List.append_nil]
      rfl

/-! ## Digits -/

/-- The digits of a row of bytes. -/
def digits (row : List UInt8) : List Char := row.flatMap binary

theorem eq_of_mem_binary (h : c ∈ binary b) : c = '1' ∨ c = '0' := by
  obtain ⟨v, -, rfl⟩ := List.mem_map.mp h
  cases v
  · exact .inr rfl
  · exact .inl rfl

theorem length_binary (b : UInt8) : (binary b).length = 8 := by
  unfold binary
  rw [List.length_map, Byte.length_pixels]

theorem length_digits (row : List UInt8) : (digits row).length = 8 * row.length :=
  Raster.length_flatMap_of_length fun b _ => length_binary b

theorem marks_binary (b : UInt8) : marks (binary b) = binary b :=
  List.filter_eq_self.mpr fun c hc => by
    rcases eq_of_mem_binary hc with rfl | rfl
    · decide
    · decide

theorem marks_binaries (row : List UInt8) :
    marks ([' '].intercalate (row.map binary)) = digits row := by
  rw [marks_intercalate, ← List.flatMap_def]
  · rfl
  · intro l hl
    obtain ⟨b, -, rfl⟩ := List.mem_map.mp hl
    exact marks_binary b

theorem getElem?_binary (b : UInt8) {i : Nat} (hi : i < 8) :
    (binary b)[i]? = some (if Byte.pixel b i then '1' else '0') := by
  unfold binary
  rw [List.getElem?_map, Byte.getElem?_pixels b hi]
  rfl

end Picture

namespace Raster

open Picture

variable {r : Raster} {x y : Nat}

theorem getElem?_digits (hy : y < r.height) (hx : x < 8 * stride r.width) :
    (digits (r.row y))[x]? = some (if r.bit x y then '1' else '0') := by
  have hk : x / 8 < (r.row y).length := by rw [length_row hy]; omega
  unfold digits bit
  rw [getElem?_flatMap_of_length (Nat.zero_lt_succ 7) fun b _ => length_binary b,
    List.getElem?_eq_getElem hk]
  exact getElem?_binary _ (Nat.mod_lt x (by decide))

/-! ## Padding made part of the picture -/

theorem stride_mul (n : Nat) : stride (8 * n) = n := by unfold stride; omega

/-- **The raster of the same bytes without padding**: its rows end where its bytes do. -/
def unpadded (r : Raster) : Raster :=
  { r with
    width := 8 * stride r.width
    width_pos := Nat.mul_pos (by decide) (Byte.stride_pos r.width_pos)
    size_bytes := by rw [stride_mul]; exact r.size_bytes }

theorem row_unpadded (r : Raster) (y : Nat) : r.unpadded.row y = r.row y := by
  show Rows.rowOf (stride (8 * stride r.width)) r.bytes y = _
  rw [stride_mul]
  rfl

theorem bit_unpadded (r : Raster) (x y : Nat) : r.unpadded.bit x y = r.bit x y := by
  unfold bit
  rw [row_unpadded]

theorem paddingClear_unpadded (r : Raster) : r.unpadded.PaddingClear := by
  intro y _ x hx hx'
  change 8 * stride r.width ≤ x at hx
  change x < 8 * stride (8 * stride r.width) at hx'
  rw [stride_mul] at hx'
  exact absurd hx' (Nat.not_lt_of_le hx)

theorem unpadded_eq_self (h : r.width % 8 = 0) : r.unpadded = r := by
  have hw : r.unpadded.width = r.width := by
    show 8 * stride r.width = r.width
    unfold stride
    omega
  exact eq_of_bit hw rfl fun y _ x _ => bit_unpadded r x y

/-! ## The binary text as a picture -/

/-- The mark of a pixel in binary. -/
def digit (v : Bool) : Char := if v then '1' else '0'

/-- **The binary text is that of its lines.** -/
theorem bitText_eq (r : Raster) :
    r.bitText = unlines (r.rows.map fun row => [' '].intercalate (row.map binary)) := by
  unfold bitText unlines
  rw [List.flatMap_map]
  rfl

theorem newline_not_mem_binaries (row : List UInt8) :
    '\n' ∉ [' '].intercalate (row.map binary) := by
  intro hmem
  rcases mem_intercalate hmem with hs | ⟨l, hl, hc⟩
  · exact absurd hs (by decide)
  · obtain ⟨b, -, rfl⟩ := List.mem_map.mp hl
    exact absurd (eq_of_mem_binary hc) (by decide)

theorem digits_row (hy : y < r.height) : digits (r.row y) = markRow digit r.unpadded y := by
  refine List.ext_getElem? fun x => ?_
  by_cases hx : x < 8 * stride r.width
  · have hin : r.unpadded.Inside x y := ⟨hx, hy⟩
    have hrange : (List.range r.unpadded.width)[x]? = some x := List.getElem?_range hx
    rw [getElem?_digits hy hx, markRow, List.getElem?_map, hrange, Option.map_some,
      isSet_of_inside hin, bit_unpadded]
    rfl
  · have hlength : (markRow digit r.unpadded y).length = 8 * stride r.width := length_markRow ..
    rw [List.getElem?_eq_none, List.getElem?_eq_none]
    · rw [hlength]
      exact Nat.le_of_not_lt hx
    · rw [length_digits, length_row hy]
      exact Nat.le_of_not_lt hx

/-- **The rows of the binary text** have a digit for each pixel, padding included. -/
theorem rows_bitText (r : Raster) : Picture.rows r.bitText = markRows digit r.unpadded := by
  have hlines : (r.rows.map fun row => [' '].intercalate (row.map binary)).map marks =
      markRows digit r.unpadded := by
    unfold rows markRows
    rw [List.map_map, List.map_map]
    exact List.map_congr_left fun y hy =>
      (marks_binaries _).trans (digits_row (List.mem_range.mp hy))
  rw [bitText_eq, rows_unlines]
  · unfold rowsOf
    rw [hlines]
    exact List.filter_eq_self.mpr fun l hl => decide_eq_true (ne_nil_of_mem_markRows hl)
  · intro l hl
    obtain ⟨row, -, rfl⟩ := List.mem_map.mp hl
    exact newline_not_mem_binaries row

theorem draws_bitText (hh : 2 ≤ r.height) (hw : 8 * stride r.width < 2 ^ 32) :
    Draws r.bitText r.unpadded := by
  have hset : digit true ∈ setMarks := by decide
  have hclear : digit false ∈ clearMarks := by decide
  have htwo : 2 ≤ r.unpadded.width := by
    have := Byte.stride_pos r.width_pos
    show 2 ≤ 8 * stride r.width
    omega
  exact draws_of_markRows (rows_bitText r) hset hclear htwo hh hw (paddingClear_unpadded r)

/-- **The bytes survive being written in binary and read back**: of two rows or more, with rows of
fewer than `2 ^ 32` pixels and padding, the binary text is read as a raster with the same height and
bytes, whose width takes in the padding; if there is none, it is the raster itself. -/
theorem bitText_keeps_bytes (hh : 2 ≤ r.height) (hw : 8 * stride r.width < 2 ^ 32) :
    ∃ p, ofPicture? r.bitText = .ok p ∧ p.width = 8 * stride r.width ∧ p.height = r.height ∧
      p.bytes = r.bytes ∧ (r.width % 8 = 0 → p = r) :=
  ⟨r.unpadded, ofPicture?_eq_ok_iff.mpr (draws_bitText hh hw), rfl, rfl, rfl, unpadded_eq_self⟩

/-- Five pixels of padding in a row, one of them set. -/
theorem bitText_keeps_bytes_padded :
    let r : Raster := ⟨11, 2, #[0xa5, 0x5f, 0x3c, 0xe0], by decide, by decide, by decide⟩
    2 ≤ r.height ∧ 8 * stride r.width < 2 ^ 32 ∧
      ∃ p, ofPicture? r.bitText = .ok p ∧ p.width = 16 ∧ p.height = 2 ∧
        p.bytes = #[0xa5, 0x5f, 0x3c, 0xe0] := by
  intro r
  have hh : 2 ≤ r.height := by decide
  have hw : 8 * stride r.width < 2 ^ 32 := by decide
  obtain ⟨p, hp, hwidth, hheight, hbytes, -⟩ := bitText_keeps_bytes hh hw
  exact ⟨hh, hw, p, hp, hwidth.trans (by decide), hheight, hbytes⟩

end Raster

end Bitplane
