import Mathlib.Algebra.Group.Nat.Defs
import Bitplane.Raster.Picture
import Bitplane.Raster.Pixels

/-! # Reading pictures

The rows of a text are its lines, split at every newline, without their white space; blank lines
have none. A text is a picture if its rows are made of marks, as many in each, and are neither too
few nor too short nor too long. The reader goes down the lines and keeps the width of the first row,
so that it stops at the first line with a fault, and in it at an unknown character before it counts.

* `lines_eq_splitOn`, `readMarks_ok`, `readMarks_stray`: the lines and the marks of one.
* `Faultless`, `Fault`: what the reader asks of a line, and what it finds wrong with one.
* `readRows_cons`: one line without a fault adds its row, if it has one, and keeps the width.
  `readRows_ok`, `readRows_fault`: hence what all lines give, and what the first fault does.
* `Drawable`, `Draws`, `Refused`: the pictures, their rasters, and what other texts are refused for.
* `picture_drawn_or_refused`: the reader answers exactly these. -/

namespace Bitplane

namespace Picture

variable {c : Char} {cs l line : List Char} {ls before after : List (List Char)} {n w : Nat}
  {expected : Option Nat} {p : Problem} {t : String} {r : Raster} {e : Raster.Error} {x y : Nat}

theorem forall_or_first {α : Type} (P : α → Prop) [DecidablePred P] (l : List α) :
    (∀ a ∈ l, P a) ∨ ∃ before a after, l = before ++ a :: after ∧ (∀ b ∈ before, P b) ∧ ¬ P a := by
  cases h : l.find? fun a => !decide (P a) with
  | none => exact .inl (by simpa using h)
  | some a =>
    obtain ⟨ha, before, after, rfl, hbefore⟩ := List.find?_eq_some_iff_append.mp h
    exact .inr ⟨before, a, after, rfl, by simpa using hbefore, by simpa using ha⟩

/-! ## Marks -/

/-- The marks of a set pixel. -/
def setMarks : List Char := ['#', '1', 'x', 'X']

/-- The marks of a clear pixel. -/
def clearMarks : List Char := ['.', '0']

/-- The character marks a pixel. -/
def IsMark (c : Char) : Prop := c ∈ setMarks ∨ c ∈ clearMarks

instance : DecidablePred IsMark := fun _ => inferInstanceAs (Decidable (_ ∨ _))

/-- The pixels of a row of marks. -/
def pixelsOf (row : List Char) : List Bool := row.map fun c => decide (c ∈ setMarks)

theorem length_pixelsOf (row : List Char) : (pixelsOf row).length = row.length := List.length_map ..

theorem isEmpty_pixelsOf {row : List Char} (h : row ≠ []) : (pixelsOf row).isEmpty = false := by
  simpa [pixelsOf] using h

theorem ofMark?_of_isMark (h : IsMark c) : ofMark? c = some (decide (c ∈ setMarks)) := by
  have hset : c ∈ setMarks ↔ c = '#' ∨ c = '1' ∨ c = 'x' ∨ c = 'X' := by simp [setMarks]
  have hclear : c ∈ clearMarks ↔ c = '.' ∨ c = '0' := by simp [clearMarks]
  unfold ofMark?
  by_cases hc : c ∈ setMarks
  · rw [if_pos (hset.mp hc), decide_eq_true hc]
  · rw [if_neg (mt hset.mpr hc), if_pos (hclear.mp (h.resolve_left hc)), decide_eq_false hc]

theorem ofMark?_of_not_isMark (h : ¬ IsMark c) : ofMark? c = none := by
  simp only [IsMark, setMarks, clearMarks, List.mem_cons, List.not_mem_nil, or_false, not_or] at h
  simp only [ofMark?, h, or_false, if_false]

theorem readMarks_ok (n : Nat) (h : ∀ c ∈ cs, IsMark c) : readMarks n cs = .ok (pixelsOf cs) := by
  induction cs with
  | nil => rfl
  | cons c cs ih =>
    rw [List.forall_mem_cons] at h
    unfold readMarks
    rw [ofMark?_of_isMark h.1, ih h.2]
    rfl

theorem readMarks_stray (n : Nat) {before after : List Char} (h : ∀ d ∈ before, IsMark d)
    (hc : ¬ IsMark c) : readMarks n (before ++ c :: after) = .error (.strayMark c n) := by
  induction before with
  | nil =>
    rw [List.nil_append]
    unfold readMarks
    rw [ofMark?_of_not_isMark hc]
  | cons d before ih =>
    rw [List.forall_mem_cons] at h
    rw [List.cons_append]
    unfold readMarks
    rw [ofMark?_of_isMark h.1, ih h.2]
    rfl

/-! ## Lines and rows -/

theorem lines_eq_splitOn (cs : List Char) : lines cs = cs.splitOn '\n' := by
  induction cs with
  | nil => rfl
  | cons c cs ih =>
    unfold lines
    rw [List.splitOn_cons_eq_if_modifyHead, ih]
    by_cases hc : c = '\n'
    · rw [if_pos hc, if_pos (beq_iff_eq.mpr hc)]
    · rw [if_neg hc, if_neg (mt beq_iff_eq.mp hc)]
      cases hls : cs.splitOn '\n' with
      | nil => exact absurd hls (List.splitOn_ne_nil _ _)
      | cons l ls => rfl

/-- The rows of some lines: what is not white space, blank lines dropped. -/
def rowsOf (ls : List (List Char)) : List (List Char) := (ls.map marks).filter (· ≠ [])

/-- The number of marks in the first row, zero if there is none. -/
def widthOf (ls : List (List Char)) : Nat := ((rowsOf ls).headD []).length

theorem rowsOf_append (ls ks : List (List Char)) : rowsOf (ls ++ ks) = rowsOf ls ++ rowsOf ks := by
  unfold rowsOf
  rw [List.map_append, List.filter_append]

theorem rowsOf_cons_of_blank (hl : marks l = []) (ls : List (List Char)) :
    rowsOf (l :: ls) = rowsOf ls := by simp [rowsOf, hl]

theorem rowsOf_cons_of_ne (hl : marks l ≠ []) (ls : List (List Char)) :
    rowsOf (l :: ls) = marks l :: rowsOf ls := by simp [rowsOf, hl]

theorem widthOf_cons_of_blank (hl : marks l = []) (ls : List (List Char)) :
    widthOf (l :: ls) = widthOf ls := by
  unfold widthOf
  rw [rowsOf_cons_of_blank hl]

theorem widthOf_cons_of_ne (hl : marks l ≠ []) (ls : List (List Char)) :
    widthOf (l :: ls) = (marks l).length := by
  unfold widthOf
  rw [rowsOf_cons_of_ne hl, List.headD_cons]

theorem mem_rowsOf_iff {row : List Char} :
    row ∈ rowsOf ls ↔ row ≠ [] ∧ ∃ l ∈ ls, marks l = row := by
  simp [rowsOf, and_comm]

/-- **Nothing is wrong with a line** among rows of `w` marks: it is made of marks, and is blank or
has as many. -/
structure Faultless (w : Nat) (line : List Char) : Prop where
  isMark : ∀ c ∈ marks line, IsMark c
  length_eq : marks line ≠ [] → (marks line).length = w

instance (w : Nat) : DecidablePred (Faultless w) := fun line =>
  have : Decidable (∀ c ∈ marks line, IsMark c) := List.decidableBAll ..
  decidable_of_iff (_ ∧ _) ⟨fun h => ⟨h.1, h.2⟩, fun h => ⟨h.1, h.2⟩⟩

/-- **What is wrong with line `n`** among rows of `w` marks. -/
inductive Fault (w n : Nat) (line : List Char) : Problem → Prop
  /-- A character is neither a mark nor white space; the leftmost is named. -/
  | stray {before after : List Char} {c : Char} (h : marks line = before ++ c :: after)
    (hbefore : ∀ d ∈ before, IsMark d) (hc : ¬ IsMark c) : Fault w n line (.strayMark c n)
  /-- The line is made of marks, but not of as many as the first row. -/
  | uneven (h : ∀ c ∈ marks line, IsMark c) (hne : marks line ≠ []) (hw : (marks line).length ≠ w) :
    Fault w n line (.unevenRow n (marks line).length w)

theorem exists_fault (n : Nat) (h : ¬ Faultless w line) : ∃ p, Fault w n line p := by
  rcases forall_or_first IsMark (marks line) with hmarks | ⟨before, c, after, hline, hbefore, hc⟩
  · have hlength : ¬ (marks line ≠ [] → (marks line).length = w) := fun hlength => h ⟨hmarks, hlength⟩
    rw [Classical.not_imp] at hlength
    exact ⟨_, .uneven hmarks hlength.1 hlength.2⟩
  · exact ⟨_, .stray hline hbefore hc⟩

/-! ## Reading rows -/

/-- **One line without a fault** adds its row, if it has one; the width of the lines below is the
same. -/
theorem readRows_cons (n : Nat) (ls : List (List Char))
    (hl : Faultless (expected.getD (widthOf (l :: ls))) l) :
    ∃ expected', expected'.getD (widthOf ls) = expected.getD (widthOf (l :: ls)) ∧
      readRows n expected (l :: ls) =
        (readRows (n + 1) expected' ls).map (((rowsOf [l]).map pixelsOf) ++ ·) := by
  by_cases hblank : marks l = []
  · refine ⟨expected, by rw [widthOf_cons_of_blank hblank], ?_⟩
    rw [readRows, readMarks_ok n hl.isMark, rowsOf_cons_of_blank hblank, hblank]
    cases readRows (n + 1) expected ls <;> rfl
  · have hlength := hl.length_eq hblank
    rw [widthOf_cons_of_ne hblank] at hlength ⊢
    refine ⟨some (marks l).length, hlength, ?_⟩
    rw [readRows, readMarks_ok n hl.isMark, rowsOf_cons_of_ne hblank]
    simp only [bind, Except.bind, isEmpty_pixelsOf hblank, length_pixelsOf, ← hlength,
      Bool.false_eq_true, if_false, ne_eq, not_true_eq_false]
    cases readRows (n + 1) (some (marks l).length) ls <;> rfl

theorem readRows_ok (n : Nat) (h : ∀ l ∈ ls, Faultless (expected.getD (widthOf ls)) l) :
    readRows n expected ls = .ok ((rowsOf ls).map pixelsOf) := by
  induction ls generalizing n expected with
  | nil => rfl
  | cons l ls ih =>
    obtain ⟨expected', hwidth, hread⟩ := readRows_cons n ls (h l List.mem_cons_self)
    have hrows : rowsOf (l :: ls) = rowsOf [l] ++ rowsOf ls := rowsOf_append [l] ls
    rw [hread, ih (n + 1) fun k hk => hwidth ▸ h k (List.mem_cons_of_mem l hk), hrows,
      List.map_append]
    rfl

/-- **The first fault is the answer.** -/
theorem readRows_fault (n : Nat)
    (h : ∀ l ∈ before, Faultless (expected.getD (widthOf (before ++ line :: after))) l)
    (hp : Fault (expected.getD (widthOf (before ++ line :: after))) (n + before.length) line p) :
    readRows n expected (before ++ line :: after) = .error p := by
  -- the lines above the fault are passed one by one, and the width that is due stays the same
  induction before generalizing n expected with
  | nil =>
    rw [List.nil_append] at hp ⊢
    cases hp with
    | stray hline hbefore hc =>
      rw [readRows, hline, readMarks_stray n hbefore hc]
      rfl
    | uneven hmarks hne hlength =>
      rw [widthOf_cons_of_ne hne] at hlength ⊢
      rw [readRows, readMarks_ok n hmarks]
      simp only [bind, Except.bind, isEmpty_pixelsOf hne, length_pixelsOf, Bool.false_eq_true,
        if_false, ne_eq, hlength, not_false_eq_true, if_true]
      rfl
  | cons l before ih =>
    rw [List.cons_append] at h hp ⊢
    obtain ⟨expected', hwidth, hread⟩ := readRows_cons n _ (h l List.mem_cons_self)
    rw [hread, ih (n + 1) (fun k hk => hwidth ▸ h k (List.mem_cons_of_mem l hk))]
    · rfl
    · rw [hwidth, Nat.add_assoc, Nat.add_comm 1, ← List.length_cons]
      exact hp

/-! ## Pictures -/

/-- **The lines of a text.** -/
def linesOf (t : String) : List (List Char) := t.toList.splitOn '\n'

/-- **The rows of a text.** -/
def rows (t : String) : List (List Char) := rowsOf (linesOf t)

/-- The number of marks in the first row. -/
def width (t : String) : Nat := widthOf (linesOf t)

/-- The number of rows. -/
def height (t : String) : Nat := (rows t).length

/-- **The text is a picture**: its rows are made of marks, as many in each, and there are enough of
both, and not too many in a row. -/
structure Drawable (t : String) : Prop where
  isMark : ∀ row ∈ rows t, ∀ c ∈ row, IsMark c
  length_eq : ∀ row ∈ rows t, row.length = width t
  two_le_width : 2 ≤ width t
  two_le_height : 2 ≤ height t
  width_lt : width t < 2 ^ 32

/-- **The raster of a picture** has its size, clear padding, and a set pixel for each mark
of one. -/
structure Draws (t : String) (r : Raster) : Prop where
  drawable : Drawable t
  width_eq : r.width = width t
  height_eq : r.height = height t
  paddingClear : r.PaddingClear
  isSet_iff : ∀ x y, r.isSet x y = true ↔
    ∃ row c, (rows t)[y]? = some row ∧ row[x]? = some c ∧ c ∈ setMarks

/-- **What a text is refused for**: the first faulty line, counted from one with blank lines; or, if
no line is faulty, rows that are too long; or else a side below two, both sides being zero where
there is no row. -/
inductive Refused (t : String) : Raster.Error → Prop
  /-- A line is faulty, and none above it is. -/
  | faulty {before after : List (List Char)} {line : List Char} {p : Problem}
    (h : linesOf t = before ++ line :: after) (hbefore : ∀ l ∈ before, Faultless (width t) l)
    (hp : Fault (width t) (before.length + 1) line p) : Refused t (.invalidParameter p)
  /-- A row has too many marks for a width. -/
  | tooWide (h : ∀ l ∈ linesOf t, Faultless (width t) l) (hw : 2 ^ 32 ≤ width t) :
    Refused t (.invalidParameter .tooWide)
  /-- There are too few rows, or too few marks in them. -/
  | tooSmall (h : ∀ l ∈ linesOf t, Faultless (width t) l) (hw : width t < 2 ^ 32)
    (hsides : width t < 2 ∨ height t < 2) : Refused t (.tooSmall (width t) (height t) 2)

theorem forall_faultless_iff : (∀ l ∈ ls, Faultless w l) ↔
    ∀ row ∈ rowsOf ls, (∀ c ∈ row, IsMark c) ∧ row.length = w := by
  constructor
  · intro h row hrow
    obtain ⟨hne, l, hl, rfl⟩ := mem_rowsOf_iff.mp hrow
    exact ⟨(h l hl).isMark, (h l hl).length_eq hne⟩
  · intro h l hl
    by_cases hblank : marks l = []
    · refine ⟨fun c hc => ?_, fun hne => absurd hblank hne⟩
      rw [hblank] at hc
      cases hc
    · have := h _ (mem_rowsOf_iff.mpr ⟨hblank, l, hl, rfl⟩)
      exact ⟨this.1, fun _ => this.2⟩

theorem Drawable.faultless (h : Drawable t) : ∀ l ∈ linesOf t, Faultless (width t) l :=
  forall_faultless_iff.mpr fun row hrow => ⟨h.isMark row hrow, h.length_eq row hrow⟩

/-- **Every text is a picture or refused.** -/
theorem drawable_or_refused (t : String) : Drawable t ∨ ∃ e, Refused t e := by
  rcases forall_or_first (Faultless (width t)) (linesOf t) with
    h | ⟨before, line, after, hlines, hbefore, hline⟩
  · have hrows := forall_faultless_iff.mp h
    by_cases hw : width t < 2 ^ 32
    · by_cases hsides : width t < 2 ∨ height t < 2
      · exact .inr ⟨_, .tooSmall h hw hsides⟩
      · exact .inl ⟨fun row hrow => (hrows row hrow).1, fun row hrow => (hrows row hrow).2,
          by omega, by omega, hw⟩
    · exact .inr ⟨_, .tooWide h (Nat.le_of_not_lt hw)⟩
  · obtain ⟨p, hp⟩ := exists_fault (before.length + 1) hline
    exact .inr ⟨_, .faulty hlines hbefore hp⟩

/-! ## What the reader answers -/

theorem widthLimit_eq : widthLimit = 2 ^ 32 := rfl

theorem ofPicture?_of_faultless (h : ∀ l ∈ linesOf t, Faultless (width t) l) :
    Raster.ofPicture? t = if widthLimit ≤ width t then .error (.invalidParameter .tooWide)
      else Raster.ofBits? ((rows t).flatMap pixelsOf).toArray (width t) (height t) := by
  have hread : (readRows 1 none (lines t.toList)).mapError Raster.Error.invalidParameter =
      .ok ((rows t).map pixelsOf) := by
    rw [lines_eq_splitOn, readRows_ok 1 h]
    rfl
  have hwidth : (((rows t).map pixelsOf).headD []).length = width t := by
    unfold width widthOf rows
    cases rowsOf (linesOf t) with
    | nil => rfl
    | cons row rest => exact length_pixelsOf row
  unfold Raster.ofPicture?
  rw [hread]
  simp only [bind, Except.bind, hwidth, List.length_map, List.flatMap]
  split <;> rfl

theorem Refused.ofPicture?_eq (h : Refused t e) : Raster.ofPicture? t = .error e := by
  cases h with
  | @faulty before after line p hlines hbefore hp =>
    have hread : readRows 1 none (lines t.toList) = .error p := by
      unfold width at hbefore hp
      rw [lines_eq_splitOn, show t.toList.splitOn '\n' = _ from hlines]
      rw [hlines] at hbefore hp
      exact readRows_fault 1 hbefore (Nat.add_comm 1 _ ▸ hp)
    unfold Raster.ofPicture?
    rw [hread]
    rfl
  | tooWide h hw => rw [ofPicture?_of_faultless h, if_pos (widthLimit_eq ▸ hw)]
  | tooSmall h hw hsides =>
    rw [ofPicture?_of_faultless h, if_neg (Nat.not_le_of_lt (widthLimit_eq ▸ hw)),
      Raster.ofBits?_tooSmall _ hsides]

theorem Drawable.length_pixelsOf (h : Drawable t) :
    ∀ row ∈ rows t, (pixelsOf row).length = width t :=
  fun row hrow => (Picture.length_pixelsOf row).trans (h.length_eq row hrow)

theorem Drawable.getElem?_pixels (h : Drawable t) (hx : x < width t) (y : Nat) :
    ((rows t).flatMap pixelsOf)[y * width t + x]? = some true ↔
      ∃ row c, (rows t)[y]? = some row ∧ row[x]? = some c ∧ c ∈ setMarks := by
  have hw : 0 < width t := Nat.zero_lt_of_lt hx
  rw [Raster.getElem?_flatMap_of_length hw h.length_pixelsOf, Nat.mul_comm, Nat.mul_add_div hw,
    Nat.div_eq_of_lt hx, Nat.add_zero, Nat.mul_add_mod, Nat.mod_eq_of_lt hx]
  simp only [pixelsOf, List.getElem?_map, Option.bind_eq_some_iff, Option.map_eq_some_iff,
    decide_eq_true_eq, ← exists_and_left]

theorem Drawable.inside (h : Drawable t) {row : List Char} (hrow : (rows t)[y]? = some row)
    (hc : row[x]? = some c) : x < width t ∧ y < height t := by
  obtain ⟨hy, hget⟩ := List.getElem?_eq_some_iff.mp hrow
  obtain ⟨hx, -⟩ := List.getElem?_eq_some_iff.mp hc
  exact ⟨h.length_eq row (hget ▸ List.getElem_mem hy) ▸ hx, hy⟩

/-- **A picture is read**, and as the raster of its marks. -/
theorem Drawable.exists_draws (h : Drawable t) : ∃ r, Raster.ofPicture? t = .ok r ∧ Draws t r := by
  have hsize : ((rows t).flatMap pixelsOf).toArray.size = width t * height t := by
    rw [List.size_toArray, Raster.length_flatMap_of_length h.length_pixelsOf]
    rfl
  rw [ofPicture?_of_faultless h.faultless,
    if_neg (Nat.not_le_of_lt (widthLimit_eq ▸ h.width_lt)),
    Raster.ofBits?_eq h.two_le_width h.two_le_height hsize]
  refine ⟨_, rfl, h, rfl, rfl, Raster.paddingClear_tabulate _, fun x y => ?_⟩
  have hgetD : ∀ o : Option Bool, o.getD false = true ↔ o = some true := fun o => by cases o <;> simp
  rw [Raster.isSet_tabulate, Bool.and_eq_true, decide_eq_true_iff, List.getElem?_toArray, hgetD]
  constructor
  · rintro ⟨hin, hset⟩
    exact (h.getElem?_pixels hin.1 y).mp hset
  · rintro ⟨row, c, hrow, hc, hset⟩
    have hin := h.inside hrow hc
    exact ⟨hin, (h.getElem?_pixels hin.1 y).mpr ⟨row, c, hrow, hc, hset⟩⟩

theorem Draws.eq {r' : Raster} (h : Draws t r) (h' : Draws t r') : r = r' :=
  Raster.eq_of_isSet h.paddingClear h'.paddingClear (h.width_eq.trans h'.width_eq.symm)
    (h.height_eq.trans h'.height_eq.symm) fun y _ x _ =>
      Bool.eq_iff_iff.mpr ((h.isSet_iff x y).trans (h'.isSet_iff x y).symm)

theorem ofPicture?_eq_ok_iff : Raster.ofPicture? t = .ok r ↔ Draws t r := by
  constructor
  · intro hr
    rcases drawable_or_refused t with h | ⟨e, h⟩
    · obtain ⟨r', hr', hdraws⟩ := h.exists_draws
      obtain rfl := Except.ok.inj (hr'.symm.trans hr)
      exact hdraws
    · rw [h.ofPicture?_eq] at hr
      cases hr
  · intro h
    obtain ⟨r', hr', hdraws⟩ := h.drawable.exists_draws
    rw [hr', hdraws.eq h]

theorem ofPicture?_eq_error_iff : Raster.ofPicture? t = .error e ↔ Refused t e := by
  refine ⟨fun he => ?_, Refused.ofPicture?_eq⟩
  rcases drawable_or_refused t with h | ⟨e', h⟩
  · obtain ⟨r, hr, -⟩ := h.exists_draws
    rw [hr] at he
    cases he
  · obtain rfl := Except.error.inj (h.ofPicture?_eq.symm.trans he)
    exact h

/-- **A text is drawn or refused**: reading succeeds exactly on the texts whose rows are made of
marks, as many in each row, at least two and fewer than `2 ^ 32`, in at least two rows. The raster
then has a column for each mark of a row, a row for each row, clear padding, and a pixel set where
the mark is one of a set pixel; every other text is refused for the first faulty line or for its
size. -/
theorem picture_drawn_or_refused (t : String) :
    ((∃ r, Raster.ofPicture? t = .ok r) ↔ Drawable t) ∧
    (∀ r, Raster.ofPicture? t = .ok r ↔ Draws t r) ∧
    (∀ e, Raster.ofPicture? t = .error e ↔ Refused t e) := by
  refine ⟨⟨fun ⟨r, hr⟩ => (ofPicture?_eq_ok_iff.mp hr).drawable, fun h => ?_⟩,
    fun r => ofPicture?_eq_ok_iff, fun e => ofPicture?_eq_error_iff⟩
  obtain ⟨r, hr, -⟩ := h.exists_draws
  exact ⟨r, hr⟩

/-- An indented picture with a blank line: the third line has an unknown character as well as a mark
too many, the fourth a mark too few. -/
example : Raster.ofPicture? " #.\n\n1?x\n0" = .error (.invalidParameter (.strayMark '?' 3)) := by
  cbv

end Picture

end Bitplane
