import Bitplane.Proofs.Raster.PictureRows

/-! # Texts that draw a raster row by row

A raster is drawn by a text that has a line for each row and in it a mark for each pixel, of one
kind at the set pixels and of another at the clear ones. Whatever else stands in the lines must be
white space.

* `unlines`, `linesOf_unlines`: the text of some lines, and its lines.
* `rowsOf_eq_self`: lines of nothing but marks are rows.
* `markRows`: the rows of a raster, with a mark for each pixel.
* `draws_of_markRows`: a text with these rows draws the raster; `rows_unlines_markRows`: the text of
  these lines has them. -/

namespace Bitplane

namespace Picture

variable {c : Char} {ls : List (List Char)} {t : String} {r : Raster} {x y : Nat}

/-! ## Lines -/

/-- **The text of some lines**, each ended by a newline. -/
def unlines (ls : List (List Char)) : String := String.ofList (ls.flatMap fun l => l ++ ['\n'])

theorem linesOf_unlines (h : ∀ l ∈ ls, '\n' ∉ l) : linesOf (unlines ls) = ls ++ [[]] := by
  unfold linesOf unlines
  rw [String.toList_ofList]
  induction ls with
  | nil => rfl
  | cons l ls ih =>
    rw [List.forall_mem_cons] at h
    rw [List.flatMap_cons, List.append_assoc, List.singleton_append,
      List.splitOn_append_cons_self_of_not_mem h.1, ih h.2]
    rfl

/-- What is behind the last newline is a line too, but no row. -/
theorem rows_unlines (h : ∀ l ∈ ls, '\n' ∉ l) : rows (unlines ls) = rowsOf ls := by
  have hblank : rowsOf [[]] = [] := rfl
  unfold rows
  rw [linesOf_unlines h, rowsOf_append, hblank, List.append_nil]

theorem marks_eq_self {l : List Char} (h : ∀ c ∈ l, IsMark c) : marks l = l := by
  have hblank : (setMarks ++ clearMarks).all fun c => !CharClass.isBlank c := by decide
  exact List.filter_eq_self.mpr fun c hc =>
    List.all_eq_true.mp hblank c (List.mem_append.mpr (h c hc))

theorem not_mem_of_isMark {l : List Char} (h : ∀ c ∈ l, IsMark c) : '\n' ∉ l := fun hmem =>
  absurd (h _ hmem) (by decide)

theorem rowsOf_eq_self (h : ∀ l ∈ ls, l ≠ [] ∧ ∀ c ∈ l, IsMark c) : rowsOf ls = ls := by
  have hmarks : ls.map marks = ls :=
    (List.map_congr_left fun l hl => marks_eq_self (h l hl).2).trans (List.map_id ls)
  unfold rowsOf
  rw [hmarks]
  exact List.filter_eq_self.mpr fun l hl => decide_eq_true (h l hl).1

/-! ## A mark for each pixel -/

variable {mark : Bool → Char}

/-- A row of a raster, with a mark for each pixel. -/
def markRow (mark : Bool → Char) (r : Raster) (y : Nat) : List Char :=
  (List.range r.width).map fun x => mark (r.isSet x y)

/-- **The rows of a raster**, with a mark for each pixel. -/
def markRows (mark : Bool → Char) (r : Raster) : List (List Char) :=
  (List.range r.height).map (markRow mark r)

theorem length_markRow (mark : Bool → Char) (r : Raster) (y : Nat) :
    (markRow mark r y).length = r.width := by
  rw [markRow, List.length_map, List.length_range]

theorem length_of_mem_markRows {row : List Char} (h : row ∈ markRows mark r) :
    row.length = r.width := by
  obtain ⟨y, -, rfl⟩ := List.mem_map.mp h
  exact length_markRow mark r y

theorem ne_nil_of_mem_markRows {row : List Char} (h : row ∈ markRows mark r) : row ≠ [] := by
  rw [← List.length_pos_iff, length_of_mem_markRows h]
  exact r.width_pos

theorem getElem?_markRows (mark : Bool → Char) (h : r.Inside x y) :
    ∃ row, (markRows mark r)[y]? = some row ∧ row[x]? = some (mark (r.isSet x y)) := by
  refine ⟨markRow mark r y, ?_, ?_⟩
  · rw [markRows, List.getElem?_map, List.getElem?_range h.2]
    rfl
  · rw [markRow, List.getElem?_map, List.getElem?_range h.1]
    rfl

section

variable (hset : mark true ∈ setMarks) (hclear : mark false ∈ clearMarks)
include hset hclear

theorem isMark_of_mem_markRow (hc : c ∈ markRow mark r y) : IsMark c := by
  obtain ⟨x, -, rfl⟩ := List.mem_map.mp hc
  cases r.isSet x y with
  | false => exact .inr hclear
  | true => exact .inl hset

theorem isMark_of_mem_markRows {row : List Char} (h : row ∈ markRows mark r) :
    ∀ c ∈ row, IsMark c := by
  obtain ⟨y, -, rfl⟩ := List.mem_map.mp h
  exact fun c hc => isMark_of_mem_markRow hset hclear hc

/-- **Lines of marks for the pixels are the rows of their text.** -/
theorem rows_unlines_markRows (r : Raster) :
    rows (unlines (markRows mark r)) = markRows mark r := by
  have hmark : ∀ l ∈ markRows mark r, ∀ c ∈ l, IsMark c := fun l hl =>
    isMark_of_mem_markRows hset hclear hl
  rw [rows_unlines fun l hl => not_mem_of_isMark (hmark l hl),
    rowsOf_eq_self fun l hl => ⟨ne_nil_of_mem_markRows hl, hmark l hl⟩]

end

section

variable (hrows : rows t = markRows mark r)
include hrows

theorem height_of_markRows : height t = r.height := by
  unfold height
  rw [hrows]
  unfold markRows
  rw [List.length_map, List.length_range]

theorem width_of_markRows : width t = r.width := by
  cases hcons : rows t with
  | nil =>
    have hheight := height_of_markRows hrows
    unfold height at hheight
    rw [hcons] at hheight
    exact absurd hheight (Nat.ne_of_lt r.height_pos)
  | cons row rest =>
    have hrow : row ∈ markRows mark r := hrows ▸ hcons ▸ List.mem_cons_self
    unfold rows at hcons
    unfold width widthOf
    rw [hcons, List.headD_cons, length_of_mem_markRows hrow]

variable (hset : mark true ∈ setMarks) (hclear : mark false ∈ clearMarks) (hw : 2 ≤ r.width)
  (hh : 2 ≤ r.height) (hlt : r.width < 2 ^ 32)
include hset hclear hw hh hlt

theorem drawable_of_markRows : Drawable t where
  isMark row hrow := isMark_of_mem_markRows hset hclear (hrows ▸ hrow)
  length_eq row hrow := by rw [width_of_markRows hrows, length_of_mem_markRows (hrows ▸ hrow)]
  two_le_width := (width_of_markRows hrows).symm ▸ hw
  two_le_height := (height_of_markRows hrows).symm ▸ hh
  width_lt := (width_of_markRows hrows).symm ▸ hlt

/-- **A text with a mark for each pixel draws the raster.** -/
theorem draws_of_markRows (hp : r.PaddingClear) : Draws t r where
  drawable := drawable_of_markRows hrows hset hclear hw hh hlt
  width_eq := (width_of_markRows hrows).symm
  height_eq := (height_of_markRows hrows).symm
  paddingClear := hp
  isSet_iff x y := by
    constructor
    · intro hxy
      obtain ⟨row, hrow, hc⟩ := getElem?_markRows mark (Raster.inside_of_isSet hxy)
      rw [hxy] at hc
      exact ⟨row, mark true, hrows ▸ hrow, hc, hset⟩
    · rintro ⟨row, c, hrow, hc, hmem⟩
      have hin := (drawable_of_markRows hrows hset hclear hw hh hlt).inside hrow hc
      rw [width_of_markRows hrows, height_of_markRows hrows] at hin
      have hinside : r.Inside x y := hin
      obtain ⟨row', hrow', hc'⟩ := getElem?_markRows mark hinside
      rw [hrows] at hrow
      obtain rfl := Option.some.inj (hrow.symm.trans hrow')
      obtain rfl := Option.some.inj (hc.symm.trans hc')
      cases hxy : r.isSet x y with
      | true => rfl
      | false =>
        rw [hxy] at hmem
        have hdisjoint : clearMarks.all fun c => !setMarks.contains c := by decide
        simpa [hmem] using List.all_eq_true.mp hdisjoint _ hclear

end

end Picture

end Bitplane
