import Bitplane.Proofs.CheckLog.Verdicts
import Bitplane.Raster.Lemmas

/-! # What a check of rasters reports

Two rasters are compared in size, then pixel by pixel in raster order, then byte by byte. Rasters of
one size and equal bytes are equal, so that the check passes on equal rasters only; and rasters of
one size whose pictures agree differ in padding, if at all.

* `findSome?_range_eq_some_iff`: the first number at which a search succeeds.
* `FirstDifference`: the first point, in raster order, at which two rasters differ;
  `stored?_isSome_of_inside`: the search for it reads in range; `firstDifference?_eq_some_iff`,
  `firstDifference?_eq_none_iff`: it finds the point if there is one.
* `DiffersBy`: how two rasters differ, in size, at a first pixel, or in padding;
  `findRasters_spec`: the check finds just that.
* `checkRasters_reports_difference`: whether the check passes, and else the one failure it adds. -/

namespace Bitplane

open CheckLog (firstDifference? findRasters)

variable {a b : Raster} {f : Finding} {n x y x' y' : Nat}

/-! ## Searches -/

theorem findSome?_range_eq_some_iff {α : Type} {g : Nat → Option α} {v : α} :
    (List.range n).findSome? g = some v ↔ ∃ i < n, g i = some v ∧ ∀ j < i, g j = none := by
  induction n with
  | zero => simp
  | succ n ih =>
    rw [List.range_succ, List.findSome?_append, List.findSome?_singleton, Option.or_eq_some_iff, ih,
      List.findSome?_eq_none_iff]
    simp only [List.mem_range]
    constructor
    · rintro (⟨i, hi, hg⟩ | ⟨hnone, hg⟩)
      · exact ⟨i, by omega, hg⟩
      · exact ⟨n, by omega, hg, hnone⟩
    · rintro ⟨i, hi, hg, hnone⟩
      by_cases hin : i = n
      · exact .inr ⟨hin ▸ hnone, hin ▸ hg⟩
      · exact .inl ⟨i, by omega, hg, hnone⟩

namespace Raster

theorem stored?_eq_get? (h : a.Inside x y) : a.stored? x y = a.get? x y := (if_pos h).symm

theorem eq_iff_size_bytes : a = b ↔ a.size = b.size ∧ a.bytes = b.bytes := by
  constructor
  · rintro rfl
    exact ⟨rfl, rfl⟩
  · rintro ⟨hs, hb⟩
    cases a; cases b
    obtain ⟨rfl, rfl⟩ := Prod.mk.inj hs
    cases hb
    rfl

/-- **The first point, in raster order, at which two rasters differ.** -/
structure FirstDifference (a b : Raster) (x y : Nat) : Prop where
  inside : a.Inside x y
  ne : a.get? x y ≠ b.get? x y
  /-- They agree in all rows above, and to the left in the row. -/
  eq_before : ∀ x' y', y' < y ∨ y' = y ∧ x' < x → a.get? x' y' = b.get? x' y'

theorem FirstDifference.unique (h : FirstDifference a b x y) (h' : FirstDifference a b x' y') :
    x = x' ∧ y = y' := by
  have hlt : ¬ (y' < y ∨ y' = y ∧ x' < x) := fun hb => h'.ne (h.eq_before x' y' hb)
  have hgt : ¬ (y < y' ∨ y = y' ∧ x < x') := fun hb => h.ne (h'.eq_before x y hb)
  omega

section

variable (hs : a.size = b.size)
include hs

theorem get?_eq_of_not_inside (h : ¬ a.Inside x y) : a.get? x y = b.get? x y := by
  obtain ⟨hw, hh⟩ := Prod.mk.inj hs
  rw [get?_of_not_inside h, get?_of_not_inside fun h' => h ⟨hw ▸ h'.1, hh ▸ h'.2⟩]

/-- **Rasters of one size are read in range** at every point of the picture. -/
theorem stored?_isSome_of_inside (h : a.Inside x y) :
    (a.stored? x y).isSome = true ∧ (b.stored? x y).isSome = true := by
  obtain ⟨hw, hh⟩ := Prod.mk.inj hs
  have h' : b.Inside x y := ⟨hw ▸ h.1, hh ▸ h.2⟩
  rw [stored?_eq_get? h, stored?_eq_get? h', get?_of_inside h, get?_of_inside h']
  exact ⟨rfl, rfl⟩

theorem stored?_ne_iff (h : a.Inside x y) :
    (a.stored? x y != b.stored? x y) = true ↔ a.get? x y ≠ b.get? x y := by
  obtain ⟨hw, hh⟩ := Prod.mk.inj hs
  have h' : b.Inside x y := ⟨hw ▸ h.1, hh ▸ h.2⟩
  rw [bne_iff_ne, stored?_eq_get? h, stored?_eq_get? h']

theorem find?_row_eq_none_iff (hy : y < a.height) :
    ((List.range a.width).find? fun x => a.stored? x y != b.stored? x y) = none ↔
      ∀ x, a.get? x y = b.get? x y := by
  rw [List.find?_range_eq_none]
  simp only [Bool.not_eq_true', ← Bool.not_eq_true]
  constructor
  · intro h x
    by_cases hx : x < a.width
    · exact Decidable.not_not.mp (mt (stored?_ne_iff hs ⟨hx, hy⟩).mpr (h x hx))
    · exact get?_eq_of_not_inside hs fun hin => hx hin.1
  · intro h x hx
    exact mt (stored?_ne_iff hs ⟨hx, hy⟩).mp (not_not_intro (h x))

theorem find?_row_eq_some_iff (hy : y < a.height) :
    ((List.range a.width).find? fun x => a.stored? x y != b.stored? x y) = some x ↔
      x < a.width ∧ a.get? x y ≠ b.get? x y ∧ ∀ x' < x, a.get? x' y = b.get? x' y := by
  rw [List.find?_range_eq_some, List.mem_range]
  simp only [Bool.not_eq_true', ← Bool.not_eq_true]
  constructor
  · rintro ⟨hne, hx, hleft⟩
    refine ⟨hx, (stored?_ne_iff hs ⟨hx, hy⟩).mp hne, fun x' hlt => ?_⟩
    exact Decidable.not_not.mp (mt (stored?_ne_iff hs ⟨Nat.lt_trans hlt hx, hy⟩).mpr (hleft x' hlt))
  · rintro ⟨hx, hne, hleft⟩
    refine ⟨(stored?_ne_iff hs ⟨hx, hy⟩).mpr hne, hx, fun x' hlt => ?_⟩
    exact mt (stored?_ne_iff hs ⟨Nat.lt_trans hlt hx, hy⟩).mp (not_not_intro (hleft x' hlt))

/-- **The search finds the first point at which rasters of one size differ.** -/
theorem firstDifference?_eq_some_iff :
    firstDifference? a b = some (x, y) ↔ a.FirstDifference b x y := by
  unfold firstDifference?
  rw [findSome?_range_eq_some_iff]
  simp only [Option.map_eq_some_iff, Option.map_eq_none_iff, Prod.mk.injEq]
  constructor
  · rintro ⟨y, hy, ⟨x, hfound, rfl, rfl⟩, habove⟩
    obtain ⟨hx, hne, hleft⟩ := (find?_row_eq_some_iff hs hy).mp hfound
    refine ⟨⟨hx, hy⟩, hne, ?_⟩
    rintro x' y' (hlt | ⟨rfl, hlt⟩)
    · exact (find?_row_eq_none_iff hs (Nat.lt_trans hlt hy)).mp (habove y' hlt) x'
    · exact hleft x' hlt
  · intro h
    have hy : y < a.height := h.inside.2
    refine ⟨y, hy, ⟨x, (find?_row_eq_some_iff hs hy).mpr ⟨h.inside.1, h.ne, fun x' hlt => ?_⟩,
      rfl, rfl⟩, fun y' hlt => (find?_row_eq_none_iff hs (Nat.lt_trans hlt hy)).mpr fun x' => ?_⟩
    · exact h.eq_before x' y (.inr ⟨rfl, hlt⟩)
    · exact h.eq_before x' y' (.inl hlt)

theorem firstDifference?_eq_none_iff :
    firstDifference? a b = none ↔ ∀ x y, a.get? x y = b.get? x y := by
  unfold firstDifference?
  rw [List.findSome?_eq_none_iff]
  simp only [Option.map_eq_none_iff, List.mem_range]
  constructor
  · intro h x y
    by_cases hin : a.Inside x y
    · exact (find?_row_eq_none_iff hs hin.2).mp (h y hin.2) x
    · exact get?_eq_of_not_inside hs hin
  · intro h y hy
    exact (find?_row_eq_none_iff hs hy).mpr fun x => h x y

end

/-- **How two rasters differ**, as a check of them reports it: in size; else at a pixel, the first
one; else in padding. -/
inductive DiffersBy (a b : Raster) : Finding → Prop
  | sizes (h : a.size ≠ b.size) : DiffersBy a b (.sizes a.size b.size)
  | pixel {x y : Nat} (hs : a.size = b.size) (h : a.FirstDifference b x y) :
    DiffersBy a b (.pixel x y a b)
  | padding (hs : a.size = b.size) (h : ∀ x y, a.get? x y = b.get? x y) (hne : a ≠ b) :
    DiffersBy a b (.padding b)

namespace DiffersBy

variable (h : a.DiffersBy b f)
include h

theorem text_eq (name : String) (k : Nat) : Failure.text name ⟨k, f⟩ =
    s!"Failure in {name}_reg: image comparison for index {k}" ++ f.detail := by
  have hsubject : f.subject = "image comparison" := by cases h <;> rfl
  rw [Failure.text_eq, hsubject]
  apply String.toList_inj.mp
  simp [toString_string]

theorem eq_sizes_iff : f = .sizes a.size b.size ↔ a.size ≠ b.size := by
  cases h with
  | sizes hs => exact iff_of_true rfl hs
  | pixel hs _ => exact iff_of_false nofun (not_not_intro hs)
  | padding hs _ _ => exact iff_of_false nofun (not_not_intro hs)

theorem eq_pixel_iff : f = .pixel x y a b ↔ a.size = b.size ∧ a.FirstDifference b x y := by
  cases h with
  | sizes hs => exact iff_of_false nofun fun h => hs h.1
  | pixel hs hfirst =>
    constructor
    · intro h
      cases h
      exact ⟨hs, hfirst⟩
    · rintro ⟨-, h⟩
      obtain ⟨rfl, rfl⟩ := hfirst.unique h
      rfl
  | padding _ hpixels _ => exact iff_of_false nofun fun h => h.2.ne (hpixels x y)

theorem exists_pixel_iff :
    (∃ x y, f = .pixel x y a b) ↔ a.size = b.size ∧ ∃ x y, a.get? x y ≠ b.get? x y := by
  cases h with
  | sizes hs => exact iff_of_false (fun ⟨_, _, h⟩ => nomatch h) fun h => hs h.1
  | pixel hs hfirst => exact iff_of_true ⟨_, _, rfl⟩ ⟨hs, _, _, hfirst.ne⟩
  | padding _ hpixels _ =>
    exact iff_of_false (fun ⟨_, _, h⟩ => nomatch h) fun ⟨_, x, y, h⟩ => h (hpixels x y)

theorem eq_padding_iff : f = .padding b ↔ a.size = b.size ∧ ∀ x y, a.get? x y = b.get? x y := by
  cases h with
  | sizes hs => exact iff_of_false nofun fun h => hs h.1
  | pixel _ hfirst => exact iff_of_false nofun fun h => hfirst.ne (h.2 _ _)
  | padding hs hpixels _ => exact iff_of_true rfl ⟨hs, hpixels⟩

end DiffersBy

/-- **A check finds nothing in equal rasters, and in others how they differ.** -/
theorem findRasters_spec (a b : Raster) : a = b ∧ findRasters a b = none ∨
    a ≠ b ∧ ∃ f, a.DiffersBy b f ∧ findRasters a b = some f := by
  unfold findRasters sameSize
  by_cases hs : a.size = b.size
  · rw [if_pos (beq_iff_eq.mpr hs)]
    cases hd : firstDifference? a b with
    | some p =>
      have hfirst := (firstDifference?_eq_some_iff hs).mp hd
      exact .inr ⟨fun h => hfirst.ne (h ▸ rfl), _, .pixel hs hfirst, rfl⟩
    | none =>
      have hpixels := (firstDifference?_eq_none_iff hs).mp hd
      by_cases hb : a.bytes = b.bytes
      · exact .inl ⟨eq_iff_size_bytes.mpr ⟨hs, hb⟩, if_pos hb⟩
      · have hne : a ≠ b := fun h => hb (h ▸ rfl)
        exact .inr ⟨hne, _, .padding hs hpixels hne, if_neg hb⟩
  · rw [if_neg (mt beq_iff_eq.mp hs)]
    exact .inr ⟨fun h => hs (h ▸ rfl), _, .sizes hs, rfl⟩

end Raster

namespace CheckLog

/-- **A check of rasters reports how they differ.** It passes exactly if they are equal, and adds
nothing then. Else it adds one failure: of the sizes exactly if they differ; of a pixel exactly if
the sizes agree and some pixel does not, and this is the first one in raster order; of the padding
exactly if the sizes and all pixels agree. -/
theorem checkRasters_reports_difference (l : CheckLog) (a b : Raster) :
    ((l.checkRasters a b).1 = true ↔ a = b) ∧
    (a = b → (l.checkRasters a b).2.failures = l.failures) ∧
    (a ≠ b → ∃ f : Finding,
      (l.checkRasters a b).2.failures = l.failures ++ [⟨l.index + 1, f⟩] ∧
      (l.checkRasters a b).2.texts = l.texts ++
        [s!"Failure in {l.name}_reg: image comparison for index {l.index + 1}" ++ f.detail] ∧
      (f = .sizes a.size b.size ↔ a.size ≠ b.size) ∧
      (∀ x y, f = .pixel x y a b ↔ a.size = b.size ∧ a.FirstDifference b x y) ∧
      ((∃ x y, f = .pixel x y a b) ↔ a.size = b.size ∧ ∃ x y, a.get? x y ≠ b.get? x y) ∧
      (f = .padding b ↔ a.size = b.size ∧ ∀ x y, a.get? x y = b.get? x y)) := by
  rw [checkRasters_eq]
  rcases Raster.findRasters_spec a b with ⟨heq, hfound⟩ | ⟨hne, f, hf, hfound⟩
  · rw [hfound]
    exact ⟨iff_of_true rfl heq, fun _ => rfl, fun hne => absurd heq hne⟩
  · rw [hfound]
    refine ⟨iff_of_false nofun hne, fun heq => absurd heq hne,
      fun _ => ⟨f, rfl, ?_, hf.eq_sizes_iff,
      fun x y => hf.eq_pixel_iff, hf.exists_pixel_iff, hf.eq_padding_iff⟩⟩
    rw [check_some, texts_fail, ← hf.text_eq]
    rfl

/-- Three pixels in a byte, and a fourth bit that is padding. -/
example :
    let a : Raster := ⟨3, 2, #[0xa0, 0x40], by decide, by decide, by decide⟩
    let b : Raster := ⟨3, 2, #[0xa0, 0x50], by decide, by decide, by decide⟩
    ((start "pads" .compare).checkRasters a b).2.texts =
      ["Failure in pads_reg: image comparison for index 1 - padding bits differ\n10100000\n01010000\n"] := by
  decide +kernel

end CheckLog

end Bitplane
