import Bitplane.Proofs.Raster.DrawnRows

/-! # The numbered drawing, read back

The numbered drawing of a raster has a line for each row: the number of the row, a blank, and every
pixel twice. Digits are marks, so the drawing itself is not read as the raster. All numbers stand in
a column as wide as the greatest of them; without that column and with every second of the other
characters, the text is a picture, and that of the raster.

* `InColumn`, `inColumn_column`: a number at the right of its column.
* `everySecond_drop_doubled`: of doubled entries every second gives them back, from either of the
  first two.
* `numberedText_eq`: the drawing as a text of lines; `numberedLine_numberedRow`: what each of them
  is.
* `numberedText_keeps_pixels`: the drawing determines the raster. -/

namespace Bitplane

namespace Picture

variable {α : Type} {c : Char} {cs : List Char} {i k n : Nat}

/-! ## Numbers -/

/-- **The number stands at the right of a column** `k` characters wide: blanks, then its digits. -/
structure InColumn (k n : Nat) (cs : List Char) : Prop where
  length_eq : cs.length = k
  eq_digits : ∃ blanks, cs = List.replicate blanks ' ' ++ Nat.toDigits 10 n

theorem length_toDigits_mono (h : n ≤ k) :
    (Nat.toDigits 10 n).length ≤ (Nat.toDigits 10 k).length := by
  rw [Nat.length_toDigits_le_iff (by decide) Nat.length_toDigits_pos]
  calc n ≤ k := h
    _ < 10 ^ (Nat.toDigits 10 k).length :=
      (Nat.length_toDigits_le_iff (by decide) Nat.length_toDigits_pos).mp (Nat.le_refl _)

theorem inColumn_column (h : (Nat.toDigits 10 n).length ≤ k) : InColumn k n (column k n) where
  length_eq := by
    unfold column
    rw [List.length_append, List.length_replicate, Nat.sub_add_cancel h]
  eq_digits := ⟨_, rfl⟩

theorem InColumn.not_mem (h : InColumn k n cs) : '\n' ∉ cs := by
  obtain ⟨blanks, rfl⟩ := h.eq_digits
  rw [List.mem_append, not_or]
  constructor
  · exact fun hmem => absurd (List.eq_of_mem_replicate hmem) (by decide)
  · exact fun hmem => absurd (Nat.isDigit_of_mem_toDigits (by decide) (by decide) hmem) (by decide)

/-! ## Doubled entries -/

/-- Every entry twice. -/
def doubled (l : List α) : List α := l.flatMap fun a => [a, a]

/-- Every second entry, from the first on. -/
def everySecond : List α → List α
  | [] => []
  | [a] => [a]
  | a :: _ :: l => a :: everySecond l

theorem length_doubled (l : List α) : (doubled l).length = 2 * l.length :=
  Raster.length_flatMap_of_length fun _ _ => rfl

theorem mem_of_mem_doubled {a : α} {l : List α} (h : a ∈ doubled l) : a ∈ l := by
  obtain ⟨b, hb, ha⟩ := List.mem_flatMap.mp h
  have hab : a = b := by simpa using ha
  exact hab ▸ hb

theorem everySecond_doubled (l : List α) : everySecond (doubled l) = l := by
  induction l with
  | nil => rfl
  | cons a l ih => exact congrArg (a :: ·) ih

/-- The first of two equal entries is passed over. -/
theorem everySecond_cons_doubled (a : α) (l : List α) : everySecond (a :: doubled l) = a :: l := by
  induction l generalizing a with
  | nil => rfl
  | cons b l ih => exact congrArg (a :: ·) (ih b)

/-- **Of doubled entries every second gives them back**, from the first or from the second on. -/
theorem everySecond_drop_doubled (l : List α) (hi : i < 2) :
    everySecond ((doubled l).drop i) = l := by
  match i, hi with
  | 0, _ => exact everySecond_doubled l
  | 1, _ =>
    cases l with
    | nil => rfl
    | cons a l => exact everySecond_cons_doubled a l

end Picture

namespace Raster

open Picture

variable {r : Raster} {l : List Char} {i x y : Nat}

/-! ## Lines -/

/-- The width of the column of numbers: that of the greatest. -/
def numberWidth (r : Raster) : Nat := (Nat.toDigits 10 (r.height - 1)).length

/-- The mark of a pixel in a drawing. -/
def hashMark (v : Bool) : Char := if v then '#' else '.'

/-- A line of the drawing, without its newline. -/
def numberedRow (r : Raster) (y : Nat) : List Char :=
  column r.numberWidth y ++ ' ' :: doubled (markRow hashMark r y)

/-- **A line of the drawing**: the number of the row in its column, a blank, and two characters a
pixel. -/
structure NumberedLine (r : Raster) (y : Nat) (l : List Char) : Prop where
  length_eq : l.length = r.numberWidth + 1 + 2 * r.width
  number : InColumn r.numberWidth y (l.take r.numberWidth)
  blank : l[r.numberWidth]? = some ' '

theorem inColumn_number (hy : y < r.height) : InColumn r.numberWidth y (column r.numberWidth y) :=
  inColumn_column (length_toDigits_mono (Nat.le_sub_one_of_lt hy))

theorem hashMark_true : hashMark true ∈ setMarks := by decide

theorem hashMark_false : hashMark false ∈ clearMarks := by decide

theorem numberedLine_numberedRow (hy : y < r.height) : r.NumberedLine y (r.numberedRow y) := by
  have hcolumn := inColumn_number hy
  unfold numberedRow
  refine ⟨?_, ?_, ?_⟩
  · rw [List.length_append, hcolumn.length_eq, List.length_cons, length_doubled, length_markRow]
    omega
  · rwa [List.take_left' hcolumn.length_eq]
  · rw [List.getElem?_append_right (Nat.le_of_eq hcolumn.length_eq), hcolumn.length_eq,
      Nat.sub_self]
    rfl

/-- **Behind the number and the blank stand the marks**, each of them twice. -/
theorem everySecond_drop_numberedRow (hy : y < r.height) (hi : i < 2) :
    everySecond ((r.numberedRow y).drop (r.numberWidth + 1 + i)) = markRow hashMark r y := by
  have hlength : (column r.numberWidth y ++ [' ']).length = r.numberWidth + 1 := by
    rw [List.length_append, (inColumn_number hy).length_eq, List.length_singleton]
  unfold numberedRow
  rw [List.append_cons, ← List.drop_drop, List.drop_left' hlength, everySecond_drop_doubled _ hi]

theorem newline_not_mem_numberedRow (hy : y < r.height) : '\n' ∉ r.numberedRow y := by
  unfold numberedRow
  rw [List.mem_append, List.mem_cons, not_or, not_or]
  refine ⟨(inColumn_number hy).not_mem, by decide, fun hmem => ?_⟩
  have hmark : ∀ c ∈ markRow hashMark r y, IsMark c := fun c hc =>
    isMark_of_mem_markRow hashMark_true hashMark_false hc
  exact not_mem_of_isMark hmark (mem_of_mem_doubled hmem)

/-! ## The drawing -/

/-- The lines of the drawing. -/
def numberedRows (r : Raster) : List (List Char) := (List.range r.height).map r.numberedRow

theorem numberedLine_eq (r : Raster) (y : Nat) :
    r.numberedLine r.numberWidth y = r.numberedRow y ++ ['\n'] := by
  have hwide : ∀ v, wide v = [hashMark v, hashMark v] := fun v => by cases v <;> rfl
  unfold numberedLine numberedRow doubled markRow
  simp only [hwide, List.flatMap_map]

theorem numberedText_eq (r : Raster) : r.numberedText = unlines r.numberedRows := by
  show String.ofList ((List.range r.height).flatMap (r.numberedLine r.numberWidth)) = _
  unfold unlines numberedRows
  rw [List.flatMap_map, funext (numberedLine_eq r)]

/-- **Without its numbers and with every second of its marks the drawing has a mark for each
pixel.** -/
theorem map_everySecond_numberedRows (hi : i < 2) :
    (r.numberedRows.map fun l => everySecond (l.drop (r.numberWidth + 1 + i))) =
      markRows hashMark r := by
  unfold numberedRows markRows
  rw [List.map_map]
  exact List.map_congr_left fun y hy => everySecond_drop_numberedRow (List.mem_range.mp hy) hi

/-- **The numbered drawing loses no pixel.** Of a raster with clear padding and sides of two or more
it has a line for each row, with the number of the row at the right of a column as wide as the
greatest, a blank, and two characters for each pixel. The lines without the column and the blank,
and with every second of the other characters, whether one starts with the first or the second, are
read as the raster. -/
theorem numberedText_keeps_pixels (hw : 2 ≤ r.width) (hh : 2 ≤ r.height) (hlt : r.width < 2 ^ 32)
    (hp : r.PaddingClear) :
    ∃ ls, r.numberedText = unlines ls ∧ ls.length = r.height ∧ (∀ l ∈ ls, '\n' ∉ l) ∧
      (∀ y l, ls[y]? = some l → r.NumberedLine y l) ∧
      ∀ i < 2, ofPicture? (unlines (ls.map fun l => everySecond (l.drop (r.numberWidth + 1 + i)))) =
        .ok r := by
  refine ⟨r.numberedRows, numberedText_eq r, ?_, fun l hl => ?_, fun y l hl => ?_, fun i hi => ?_⟩
  · unfold numberedRows
    rw [List.length_map, List.length_range]
  · obtain ⟨y, hy, rfl⟩ := List.mem_map.mp hl
    exact newline_not_mem_numberedRow (List.mem_range.mp hy)
  · unfold numberedRows at hl
    rw [List.getElem?_map] at hl
    obtain ⟨y', hy', rfl⟩ := Option.map_eq_some_iff.mp hl
    obtain ⟨hy, rfl⟩ := List.getElem?_eq_some_iff.mp hy'
    rw [List.length_range] at hy
    rw [List.getElem_range]
    exact numberedLine_numberedRow hy
  · rw [map_everySecond_numberedRows hi]
    have hrows := rows_unlines_markRows hashMark_true hashMark_false r
    exact ofPicture?_eq_ok_iff.mpr
      (draws_of_markRows hrows hashMark_true hashMark_false hw hh hlt hp)

/-- Eleven rows, so that the numbers take two characters. -/
theorem numberedText_keeps_pixels_two_digits :
    let r : Raster := ⟨3, 11, #[0xa0, 0x40, 0x00, 0x00, 0xe0, 0x00, 0x20, 0x00, 0x80, 0x60, 0x20],
      by decide, by decide, by decide⟩
    2 ≤ r.width ∧ 2 ≤ r.height ∧ r.width < 2 ^ 32 ∧ r.PaddingClear ∧ r.numberWidth = 2 ∧
      ∃ ls, r.numberedText = unlines ls ∧ ls.length = 11 ∧
        (∀ y l, ls[y]? = some l → l.length = 9 ∧ InColumn 2 y (l.take 2) ∧ l[2]? = some ' ') ∧
        ∀ i < 2, ofPicture? (unlines (ls.map fun l => everySecond (l.drop (3 + i)))) = .ok r := by
  intro r
  have hp : r.PaddingClear := by decide
  have hwidth : r.numberWidth = 2 := by
    show (Nat.toDigits 10 10).length = 2
    decide
  obtain ⟨ls, htext, hlength, -, hline, hread⟩ :=
    numberedText_keeps_pixels (r := r) (by decide) (by decide) (by decide) hp
  rw [hwidth] at hread
  refine ⟨by decide, by decide, by decide, hp, hwidth, ls, htext, hlength, fun y l hl => ?_, hread⟩
  obtain ⟨hchars, hnumber, hblank⟩ := hline y l hl
  rw [hwidth] at hchars hnumber hblank
  exact ⟨hchars, hnumber, hblank⟩

end Raster

end Bitplane
