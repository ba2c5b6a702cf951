import Bitplane.LabelGrid.Lemmas
import Bitplane.Proofs.Raster.DrawnRows

/-! # The hexadecimal drawing, read back

The drawing of a label grid has a line for each row, and in it every label in hexadecimal, two
blanks for background. A label up to `255` takes two characters, a greater one takes more; so lines
of twice the width are those without a greater label, and of a grid without any the drawing can be
cut into its labels again.

* `readHex_hexDigits`: the digits of a label give it back, and two blanks give `0`.
* `two_le_length_hexDigits`, `length_hexDigits_eq_two_iff`: how many characters a label takes.
* `length_hexRow`: when a line is twice as long as the grid is wide.
* `eq_of_flatMap_eq`: pieces of one length, put one behind the other, are found again.
* `hexText_shows_labels`: the lines of the drawing, and which drawings determine the grid. -/

namespace Bitplane.LabelGrid

open Picture (unlines linesOf linesOf_unlines)

variable {g a b : LabelGrid} {k l y : Nat} {row row' : List Nat}

/-! ## Digits -/

/-- The value of a hexadecimal digit; a blank has the value `0`. -/
def hexValue (c : Char) : Nat := if c.toNat < 58 then c.toNat - 48 else c.toNat - 87

/-- The number that hexadecimal digits stand for. -/
def readHex (cs : List Char) : Nat := cs.foldl (fun n c => 16 * n + hexValue c) 0

theorem readHex_concat (cs : List Char) (c : Char) :
    readHex (cs ++ [c]) = 16 * readHex cs + hexValue c := by
  unfold readHex
  rw [List.foldl_append]
  rfl

theorem hexValue_digitChar : ∀ d < 16, hexValue d.digitChar = d := by decide

theorem readHex_toDigits (l : Nat) : readHex (Nat.toDigits 16 l) = l := by
  induction l using Nat.strongRecOn with
  | ind l ih =>
    by_cases hl : l < 16
    · rw [Nat.toDigits_of_lt_base hl]
      show 16 * 0 + hexValue l.digitChar = l
      rw [hexValue_digitChar l hl, Nat.mul_zero, Nat.zero_add]
    · rw [Nat.toDigits_of_base_le (by decide) (Nat.le_of_not_lt hl), readHex_concat,
        ih (l / 16) (by omega), hexValue_digitChar _ (Nat.mod_lt l (by decide))]
      omega

theorem readHex_replicate_append (i : Nat) (cs : List Char) :
    readHex (List.replicate i '0' ++ cs) = readHex cs := by
  induction i with
  | zero => rfl
  | succ i ih => rw [← ih]; rfl

/-- **The digits of a label give it back**, two blanks background. -/
theorem readHex_hexDigits (l : Nat) : readHex (hexDigits l) = l := by
  unfold hexDigits
  split
  next h => rw [h]; rfl
  next => rw [readHex_replicate_append, readHex_toDigits]

theorem hexDigits_injective : Function.Injective hexDigits :=
  Function.LeftInverse.injective readHex_hexDigits

theorem two_le_length_hexDigits (l : Nat) : 2 ≤ (hexDigits l).length := by
  unfold hexDigits
  split
  next => exact Nat.le_refl 2
  next => rw [List.length_append, List.length_replicate]; omega

theorem length_hexDigits_eq_two_iff : (hexDigits l).length = 2 ↔ l ≤ 255 := by
  unfold hexDigits
  split
  next h => simp [h]
  next =>
    have hlen := Nat.length_toDigits_le_iff (n := l) (k := 2) (by decide : 1 < 16) (by decide)
    rw [List.length_append, List.length_replicate]
    omega

theorem exists_digit_of_mem_toDigits {c : Char} (h : c ∈ Nat.toDigits 16 l) :
    ∃ d < 16, c = d.digitChar := by
  induction l using Nat.strongRecOn with
  | ind l ih =>
    by_cases hl : l < 16
    · rw [Nat.toDigits_of_lt_base hl, List.mem_singleton] at h
      exact ⟨l, hl, h⟩
    · rw [Nat.toDigits_of_base_le (by decide) (Nat.le_of_not_lt hl), List.mem_append,
        List.mem_singleton] at h
      rcases h with h | h
      · exact ih (l / 16) (by omega) h
      · exact ⟨l % 16, Nat.mod_lt l (by decide), h⟩

theorem newline_not_mem_hexDigits (l : Nat) : '\n' ∉ hexDigits l := by
  have hdigit : ∀ d < 16, '\n' ≠ d.digitChar := by decide
  unfold hexDigits
  split
  next => decide
  next =>
    rw [List.mem_append, not_or]
    constructor
    · exact fun h => absurd (List.eq_of_mem_replicate h) (by decide)
    · intro h
      obtain ⟨d, hd, hc⟩ := exists_digit_of_mem_toDigits h
      exact hdigit d hd hc

/-! ## Lines -/

/-- A line of the drawing, without its newline. -/
def hexRow (row : List Nat) : List Char := row.flatMap hexDigits

theorem newline_not_mem_hexRow (row : List Nat) : '\n' ∉ hexRow row := by
  unfold hexRow
  rw [List.mem_flatMap]
  rintro ⟨l, -, hl⟩
  exact newline_not_mem_hexDigits l hl

theorem length_hexRow (row : List Nat) : 2 * row.length ≤ (hexRow row).length ∧
    ((hexRow row).length = 2 * row.length ↔ ∀ l ∈ row, l ≤ 255) := by
  unfold hexRow
  induction row with
  | nil => simp
  | cons l row ih =>
    have htwo := two_le_length_hexDigits l
    have hiff := length_hexDigits_eq_two_iff (l := l)
    rw [List.flatMap_cons, List.length_append, List.length_cons, List.forall_mem_cons, ← ih.2,
      ← hiff]
    omega

theorem eq_of_flatMap_eq {α β : Type} {f : α → List β} {n : Nat} (hf : Function.Injective f)
    (hn : 0 < n) : ∀ {as bs : List α}, (∀ v ∈ as, (f v).length = n) → (∀ v ∈ bs, (f v).length = n) →
      as.flatMap f = bs.flatMap f → as = bs
  | [], [], _, _, _ => rfl
  | [], w :: bs, _, hbs, h => by
    have hw := hbs w List.mem_cons_self
    have hlen := congrArg List.length h
    rw [List.flatMap_nil, List.flatMap_cons, List.length_append, List.length_nil] at hlen
    omega
  | v :: as, [], has, _, h => by
    have hv := has v List.mem_cons_self
    have hlen := congrArg List.length h
    rw [List.flatMap_nil, List.flatMap_cons, List.length_append, List.length_nil] at hlen
    omega
  | v :: as, w :: bs, has, hbs, h => by
    rw [List.forall_mem_cons] at has hbs
    rw [List.flatMap_cons, List.flatMap_cons] at h
    obtain ⟨hhead, htail⟩ := List.append_inj h (has.1.trans hbs.1.symm)
    rw [hf hhead, eq_of_flatMap_eq hf hn has.2 hbs.2 htail]

/-- **Rows of labels up to `255` with one line are equal.** -/
theorem eq_of_hexRow_eq (h : ∀ l ∈ row, l ≤ 255) (h' : ∀ l ∈ row', l ≤ 255)
    (heq : hexRow row = hexRow row') : row = row' :=
  eq_of_flatMap_eq hexDigits_injective (by decide : 0 < 2)
    (fun l hl => length_hexDigits_eq_two_iff.mpr (h l hl))
    (fun l hl => length_hexDigits_eq_two_iff.mpr (h' l hl)) heq

/-! ## The drawing -/

/-- The lines of the drawing. -/
def hexRows (g : LabelGrid) : List (List Char) := g.rows.map hexRow

theorem hexText_eq (g : LabelGrid) : g.hexText = unlines g.hexRows := by
  unfold hexText unlines hexRows
  rw [List.flatMap_map]
  rfl

theorem newline_not_mem_of_mem_hexRows {line : List Char} (h : line ∈ g.hexRows) : '\n' ∉ line := by
  obtain ⟨row, -, rfl⟩ := List.mem_map.mp h
  exact newline_not_mem_hexRow row

theorem length_hexRows (g : LabelGrid) : g.hexRows.length = g.height := by
  unfold hexRows rows
  rw [List.length_map, List.length_map, List.length_range]

theorem getElem?_hexRows (hy : y < g.height) : g.hexRows[y]? = some (hexRow (g.row y)) := by
  unfold hexRows rows
  rw [List.getElem?_map, List.getElem?_map, List.getElem?_range hy]
  rfl

/-- **A line of the drawing**: at least two characters for each label of the row, and just two
exactly if no label is above `255`. -/
structure HexLine (g : LabelGrid) (y : Nat) (line : List Char) : Prop where
  le_length : 2 * g.width ≤ line.length
  length_eq_iff : line.length = 2 * g.width ↔ ∀ l ∈ g.row y, l ≤ 255

theorem hexLine_of_getElem? {line : List Char} (h : g.hexRows[y]? = some line) :
    g.HexLine y line := by
  have hy : y < g.height := by
    rw [← length_hexRows]
    exact (List.getElem?_eq_some_iff.mp h).1
  obtain ⟨hle, hiff⟩ := length_hexRow (g.row y)
  rw [length_row hy] at hle hiff
  rw [getElem?_hexRows hy, Option.some.injEq] at h
  exact h ▸ ⟨hle, hiff⟩

theorem eq_of_unlines_eq {ls ks : List (List Char)} (hl : ∀ l ∈ ls, '\n' ∉ l)
    (hk : ∀ l ∈ ks, '\n' ∉ l) (h : unlines ls = unlines ks) : ls = ks := by
  have hlines := congrArg linesOf h
  rw [linesOf_unlines hl, linesOf_unlines hk] at hlines
  exact List.append_cancel_right hlines

/-- **Grids of labels up to `255` with one drawing are equal**: the lines give the height, the
length of the first the width, and every line its row. -/
theorem eq_of_hexText_eq (ha : ∀ l ∈ a.labels, l ≤ 255) (hb : ∀ l ∈ b.labels, l ≤ 255)
    (h : a.hexText = b.hexText) : a = b := by
  rw [hexText_eq, hexText_eq] at h
  have hlines := eq_of_unlines_eq (fun _ => newline_not_mem_of_mem_hexRows)
    (fun _ => newline_not_mem_of_mem_hexRows) h
  have hheight : a.height = b.height := by
    rw [← length_hexRows, ← length_hexRows, hlines]
  have hrow : ∀ y < a.height, a.row y = b.row y := fun y hy => by
    have hline := congrArg (fun ls => ls[y]?) hlines
    simp only [getElem?_hexRows hy, getElem?_hexRows (hheight ▸ hy), Option.some.injEq] at hline
    exact eq_of_hexRow_eq (fun l hl => ha l (mem_labels_of_mem_row hl))
      (fun l hl => hb l (mem_labels_of_mem_row hl)) hline
  have hwidth := congrArg List.length (hrow 0 a.height_pos)
  rw [length_row a.height_pos, length_row b.height_pos] at hwidth
  exact eq_of_row hwidth hheight hrow

/-- **The hexadecimal drawing shows the labels up to `255`.** Of every grid it has a line for each
row, at least twice as long as the grid is wide, and of just that length exactly if no label of the
row is above `255`. Grids of any sizes without such a label have one drawing only if they
are equal. -/
theorem hexText_shows_labels :
    (∀ g : LabelGrid, ∃ ls, g.hexText = unlines ls ∧ ls.length = g.height ∧ (∀ l ∈ ls, '\n' ∉ l) ∧
      ∀ y line, ls[y]? = some line → g.HexLine y line) ∧
    ∀ a b : LabelGrid, (∀ l ∈ a.labels, l ≤ 255) → (∀ l ∈ b.labels, l ≤ 255) →
      (a.hexText = b.hexText ↔ a = b) := by
  refine ⟨fun g => ⟨g.hexRows, hexText_eq g, length_hexRows g, fun line => ?_, fun y line => ?_⟩,
    fun a b ha hb => ⟨eq_of_hexText_eq ha hb, congrArg hexText⟩⟩
  · exact newline_not_mem_of_mem_hexRows
  · exact hexLine_of_getElem?

/-- A row with the labels `255` and `256`, and the same labels in another place. -/
theorem hexText_shows_labels_wide :
    let g : LabelGrid := ⟨2, 2, #[0, 255, 256, 7], by decide, by decide, by decide⟩
    let a : LabelGrid := ⟨2, 1, #[255, 7], by decide, by decide, by decide⟩
    let b : LabelGrid := ⟨1, 2, #[255, 7], by decide, by decide, by decide⟩
    (∃ ls, g.hexText = unlines ls ∧ ls.length = 2 ∧ ∀ y line, ls[y]? = some line →
      (line.length = 4 ↔ ∀ l ∈ g.row y, l ≤ 255)) ∧
    (∀ l ∈ a.labels, l ≤ 255) ∧ (∀ l ∈ b.labels, l ≤ 255) ∧ a.hexText ≠ b.hexText := by
  intro g a b
  have ha : ∀ l ∈ a.labels, l ≤ 255 := by decide
  have hb : ∀ l ∈ b.labels, l ≤ 255 := by decide
  obtain ⟨hlines, hinj⟩ := hexText_shows_labels
  obtain ⟨ls, htext, hlength, -, hline⟩ := hlines g
  refine ⟨⟨ls, htext, hlength, fun y line h => (hline y line h).length_eq_iff⟩, ha, hb, fun h => ?_⟩
  exact absurd ((hinj a b ha hb).mp h) (by decide)

/-- Two grids of one size with one drawing: digits of a label above `255` go to its neighbour. -/
example :
    let a : LabelGrid := ⟨2, 1, #[0x112, 0x33], by decide, by decide, by decide⟩
    let b : LabelGrid := ⟨2, 1, #[0x11, 0x233], by decide, by decide, by decide⟩
    a.hexText = b.hexText ∧ a ≠ b := by
  decide

end Bitplane.LabelGrid
