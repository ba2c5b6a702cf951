import Bitplane.Proofs.Morphology.CrossRules
import Bitplane.Proofs.Region.LabeledComponents

/-! # What padding shows

Writes beyond the picture can leave anything in the padding. Here two rasters hold one picture and
differ in their padding at most.

* `SamePicture`: the two rasters; `SamePicture.bit_eq`: their buffers agree inside the picture.
* `SamePicture.crossAt_eq`: of the five pixels of a cross inside the picture at most the right one
  is padding, and that only around a pixel of the last column.
* `HidesPadding`: the answers on both rasters have clear padding and agree but for the last column,
  and there too if the padding next to the picture agrees; `FollowsRule.hidesPadding`: every
  operator that follows a rule on crosses hides padding so far.
* `SamePicture.label_eq`: labeling without a filter sees no padding at all.
* `padding_shows_in_last_column_only`: the three operators and labeling. -/

namespace Bitplane

open Byte (stride)

open Region

namespace Raster

variable {a b r : Raster} {s : Strategy} {o : Options} {x y : Nat}
  {op : Raster → Except Morphology.Error Raster} {rule : CrossPixels → Bool}

/-- **Two rasters of one picture**: their size is the same and so is every pixel of the picture.
Their padding may differ. -/
structure SamePicture (a b : Raster) : Prop where
  size_eq : a.size = b.size
  get?_eq : ∀ x y, a.Inside x y → a.get? x y = b.get? x y

instance (a b : Raster) : Decidable (a.SamePicture b) :=
  decidable_of_iff (a.size = b.size ∧ ∀ y < a.height, ∀ x < a.width, a.get? x y = b.get? x y)
    ⟨fun h => ⟨h.1, fun x y hin => h.2 y hin.2 x hin.1⟩,
      fun h => ⟨h.size_eq, fun y hy x hx => h.get?_eq x y ⟨hx, hy⟩⟩⟩

namespace SamePicture

variable (h : SamePicture a b)
include h

theorem width_eq : a.width = b.width := (Prod.mk.inj h.size_eq).1

theorem height_eq : a.height = b.height := (Prod.mk.inj h.size_eq).2

theorem inside_iff : a.Inside x y ↔ b.Inside x y := by
  unfold Inside
  rw [h.width_eq, h.height_eq]

theorem bit_eq (hin : a.Inside x y) : a.bit x y = b.bit x y := by
  have hget := h.get?_eq x y hin
  rwa [get?_of_inside hin, get?_of_inside (h.inside_iff.mp hin), Option.some.injEq] at hget

/-- Above and below the picture the buffers agree too: there is nothing. -/
theorem bit_eq_of_lt_width (hx : x < a.width) (y : Nat) : a.bit x y = b.bit x y := by
  rcases Nat.lt_or_ge y a.height with hy | hy
  · exact h.bit_eq ⟨hx, hy⟩
  · rw [bit_of_height_le hy, bit_of_height_le (h.height_eq ▸ hy)]

theorem crossAt_eq (hx : x < a.width) (hright : a.bit (x + 1) y = b.bit (x + 1) y) :
    a.crossAt x y = b.crossAt x y := by
  unfold crossAt
  rw [h.bit_eq_of_lt_width hx, h.bit_eq_of_lt_width (by omega : x - 1 < a.width), hright,
    h.bit_eq_of_lt_width hx (y - 1), h.bit_eq_of_lt_width hx (y + 1)]

/-! ## Padding next to the picture -/

theorem bit_width_eq (hmargin : a.width % 8 = 0 ∨
    ∀ y < a.height, a.stored? a.width y = b.stored? b.width y) (hy : y < a.height) :
    a.bit a.width y = b.bit a.width y := by
  rcases Nat.lt_or_ge a.width (8 * stride a.width) with hx | hx
  · have hne : a.width % 8 ≠ 0 := by unfold stride at hx; omega
    have hstored := hmargin.resolve_left hne y hy
    rwa [← h.width_eq, stored?_eq hx hy, stored?_eq (h.width_eq ▸ hx) (h.height_eq ▸ hy),
      Option.some.injEq] at hstored
  · rw [bit_of_stride_le hx, bit_of_stride_le (h.width_eq ▸ hx)]

end SamePicture

/-- **The operator hides padding** but for the last column: on both rasters it succeeds and leaves
the padding clear, its answers agree in every column but the last, and they are equal if there is no
padding, or none that differs, in the column next to the picture. -/
def HidesPadding (op : Raster → Except Morphology.Error Raster) (a b : Raster) : Prop :=
  ∃ c d, op a = .ok c ∧ op b = .ok d ∧ c.CleanAs a ∧ d.CleanAs b ∧
    (∀ x y, x + 1 < a.width → c.get? x y = d.get? x y) ∧
    ((a.width % 8 = 0 ∨ ∀ y < a.height, a.stored? a.width y = b.stored? b.width y) → c = d)

/-- **What a rule makes of crosses hides padding** but for the last column. -/
theorem FollowsRule.hidesPadding (hop : FollowsRule op rule) (h : SamePicture a b)
    (hw : 2 ≤ a.width)
    (hh : 2 ≤ a.height) : HidesPadding op a b := by
  refine ⟨_, _, hop a hw hh, hop b (h.width_eq ▸ hw) (h.height_eq ▸ hh), a.cleanAs_byRule,
    b.cleanAs_byRule, fun x y hx => ?_, fun hmargin => ?_⟩
  · unfold byRule
    rw [get?_tabulate, get?_tabulate]
    refine if_congr h.inside_iff ?_ rfl
    rw [h.crossAt_eq (by omega) (h.bit_eq_of_lt_width hx y)]
  · refine tabulate_congr h.width_eq h.height_eq fun x y hin => ?_
    have hright : a.bit (x + 1) y = b.bit (x + 1) y := by
      rcases Nat.lt_or_ge (x + 1) a.width with hx | hx
      · exact h.bit_eq_of_lt_width hx y
      · have hlast : x + 1 = a.width := Nat.le_antisymm hin.1 hx
        rw [hlast]
        exact h.bit_width_eq hmargin hin.2
    rw [h.crossAt_eq hin.1 hright]

/-! ## Labeling -/

theorem SamePicture.label_eq (h : SamePicture a b) (hf : o.filterIsolated = false) :
    a.label o = b.label o := by
  have hlevels : a.levels = b.levels := by
    refine LabelGrid.eq_of_get? h.width_eq h.height_eq fun y hy x hx => ?_
    have hin : a.Inside x y := ⟨hx, hy⟩
    have hin' := h.inside_iff.mp hin
    rw [get?_levels hin.1 hin.2, get?_levels hin'.1 hin'.2, isSet_of_inside hin,
      isSet_of_inside hin', h.bit_eq hin]
  unfold label
  rw [labelSource_of_unfiltered hf, labelSource_of_unfiltered hf, h.width_eq, h.height_eq]
  simp only [bind, Except.bind, hlevels]

/-- **Padding shows in the last column only**: on two rasters of one picture the three operators
answer pictures with clear padding that agree in every column but the last, and in that one too
unless the padding next to the picture differs; and labeling without a filter answers the same
labels and count, which it does at all if the picture has few enough runs. -/
theorem padding_shows_in_last_column_only (s : Strategy) (h : SamePicture a b) (hw : 2 ≤ a.width)
    (hh : 2 ≤ a.height) :
    HidesPadding (dilateWith s) a b ∧ HidesPadding (erodeWith s) a b ∧
    HidesPadding (filterIsolatedWith s) a b ∧
    ∀ o : Options, o.filterIsolated = false →
      a.label o = b.label o ∧ (a.runCount < runLimit → ∃ l, a.label o = .ok l) :=
  ⟨(dilateWith_followsRule s).hidesPadding h hw hh, (erodeWith_followsRule s).hidesPadding h hw hh,
    (filterIsolatedWith_followsRule s).hidesPadding h hw hh,
    fun _ hf => ⟨h.label_eq hf, fun hruns => exists_label hw hh hruns hf⟩⟩

/-- Three rasters of one picture, the last two of which agree in the padding next to it. -/
theorem padding_shows_in_last_column_only_margin :
    let a : Raster := ⟨10, 3, #[0x81, 0x4f, 0x00, 0xa0, 0xff, 0xc0], by decide, by decide, by decide⟩
    let b : Raster := ⟨10, 3, #[0x81, 0x60, 0x00, 0x80, 0xff, 0xc0], by decide, by decide, by decide⟩
    let c : Raster := ⟨10, 3, #[0x81, 0x7f, 0x00, 0x81, 0xff, 0xdf], by decide, by decide, by decide⟩
    SamePicture a b ∧ SamePicture b c ∧ 2 ≤ a.width ∧ 2 ≤ a.height ∧
      HidesPadding (dilateWith .serial) a b ∧ HidesPadding (erodeWith .serial) a b ∧
      HidesPadding (filterIsolatedWith .serial) a b ∧
      b.dilateWith .serial = c.dilateWith .serial ∧
      a.label (.of .eight) = b.label (.of .eight) := by
  intro a b c
  have hab : SamePicture a b := by decide
  have hbc : SamePicture b c := by decide
  obtain ⟨hdilate, herode, hfilter, hlabel⟩ :=
    padding_shows_in_last_column_only .serial hab (by decide) (by decide)
  obtain ⟨⟨d, e, hd, he, -, -, -, hmargin⟩, -⟩ :=
    padding_shows_in_last_column_only .serial hbc (by decide) (by decide)
  have hde : d = e := hmargin (.inr (by decide))
  exact ⟨hab, hbc, by decide, by decide, hdilate, herode, hfilter, hd.trans (hde ▸ he.symm),
    (hlabel (.of .eight) rfl).1⟩

/-- A set pixel of padding next to the picture is taken for one of it by the last column. -/
example :
    let a : Raster := ⟨10, 2, #[0x00, 0x20, 0x00, 0x00], by decide, by decide, by decide⟩
    let b : Raster := ⟨10, 2, #[0x00, 0x00, 0x00, 0x00], by decide, by decide, by decide⟩
    SamePicture a b ∧ (a.dilateWith .serial).toOption.map (·.isSet 9 0) = some true ∧
      (b.dilateWith .serial).toOption.map (·.isSet 9 0) = some false := by
  decide +kernel

end Raster

end Bitplane
