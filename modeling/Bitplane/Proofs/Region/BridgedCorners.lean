import Bitplane.Proofs.Morphology.Crosses
import Bitplane.Proofs.Region.LabeledComponents
import Bitplane.Proofs.Region.PartitionCheck

/-! # Corners bridged by dilation

Two set pixels that meet at a corner are neighbours under `eight` connectivity only. The crosses
around them share the other two pixels of the square, so that dilation joins them by sides. Going
from sides to corners, and from there to the dilated picture, components are merged and none
appears.

* `Merges`: paths of one picture are paths of another, each component of which has a pixel of the
  first; `Merges.count_le`: so the second has no more components.
* `merges_eight`, `merges_dilatePixelwise`: both steps merge components.
* `get?_eq_get?_iff`: when two points have one label in a grid that numbers components.
* `countComponents_of_label`: the count of a labeling is the number of components.
* `dilation_bridges_corners`: so labels stay equal along both steps, and the counts never rise. -/

namespace Bitplane

open Region

namespace Raster

open Point (Adjacent InCross inCross_self)

variable {a b d r : Raster} {c c' : Connectivity} {p q : Point}

/-! ## Merged components -/

/-- **The components of the first picture are merged to those of the second.** -/
structure Merges (a : Raster) (c : Connectivity) (b : Raster) (c' : Connectivity) : Prop where
  joined : ∀ {p q : Point}, a.Joined c p q → b.Joined c' p q
  /-- Every component of the second picture has a pixel of the first. -/
  exists_joined : ∀ {q : Point}, b.isSet q.x q.y = true →
    ∃ p : Point, a.isSet p.x p.y = true ∧ b.Joined c' p q

/-- **Where components are merged there are no more of them.** -/
theorem Merges.count_le (h : Merges a c b c') {labels labels' : Array Nat} {count count' : Nat}
    (ha : a.NumbersComponents c labels count) (hb : b.NumbersComponents c' labels' count') :
    count' ≤ count := by
  have hpixel : ∀ k ∈ Finset.Icc 1 count', ∃ j, j ∈ Finset.Icc 1 count ∧
      ∃ p : Point, a.isSet p.x p.y = true ∧ b.labelAt labels' p = k ∧ a.labelAt labels p = j := by
    intro k hk
    obtain ⟨q, hq, hqk⟩ := hb.mem_Icc_iff.mp hk
    obtain ⟨p, hp, hj⟩ := h.exists_joined hq
    have hpq := (hb.eq_iff p q hj.isSet_left hq).mpr hj
    exact ⟨_, ha.mem_Icc_iff.mpr ⟨p, hp, rfl⟩, p, hp, hpq.trans hqk, rfl⟩
  choose! number hmem hnumber using hpixel
  -- numbers that go to one are those of pixels joined in the first picture, so also in the second
  have hinj : Set.InjOn number (Finset.Icc 1 count') := fun k hk m hm heq => by
    obtain ⟨p, hp, rfl, hpj⟩ := hnumber k hk
    obtain ⟨q, hq, rfl, hqj⟩ := hnumber m hm
    have hj := h.joined ((ha.eq_iff p q hp hq).mp (by rw [hpj, hqj, heq]))
    exact (hb.eq_iff p q hj.isSet_left hj.isSet_right).mpr hj
  have hcard := Finset.card_le_card_of_injOn number hmem hinj
  rw [Nat.card_Icc, Nat.card_Icc] at hcard
  omega

theorem merges_eight (r : Raster) : Merges r .four r .eight where
  joined := Joined.eight_of_four
  exists_joined hq := ⟨_, hq, .here hq⟩

/-! ## Corners -/

theorem isSet_dilatePixelwise_of_inCross (hp : r.isSet p.x p.y = true) (hpq : p.InCross q)
    (hq : r.Inside q.x q.y) : r.dilatePixelwise.isSet q.x q.y = true :=
  isSet_dilatePixelwise_iff.mpr ⟨hq, p, hpq.symm, hp⟩

theorem Joined.inCross (h : r.Joined .four p q) {s : Point} (hs : q.InCross s)
    (hset : r.isSet s.x s.y = true) : r.Joined .four p s := by
  rcases hs with rfl | hs
  · exact h
  · exact h.step hs hset

/-- **Dilation joins set pixels that share a side or a corner**, through the pixel in the row of the
first and the column of the second. -/
theorem joined_dilatePixelwise_of_adjacent (hp : r.isSet p.x p.y = true)
    (hq : r.isSet q.x q.y = true) (hpq : Adjacent .eight p q) :
    r.dilatePixelwise.Joined .four p q := by
  have hpin := inside_of_isSet hp
  have hqin := inside_of_isSet hq
  obtain ⟨-, hx, hx', hy, hy'⟩ := Point.adjacent_eight_iff.mp hpq
  have hps : p.InCross ⟨q.x, p.y⟩ := Point.inCross_iff.mpr (.inl ⟨rfl, hx, hx'⟩)
  have hsq : Point.InCross ⟨q.x, p.y⟩ q := Point.inCross_iff.mpr (.inr ⟨rfl, hy, hy'⟩)
  have hstart : r.dilatePixelwise.Joined .four p p :=
    .here (isSet_dilatePixelwise_of_inCross hp (inCross_self p) hpin)
  have hcorner := hstart.inCross hps (isSet_dilatePixelwise_of_inCross hp hps ⟨hqin.1, hpin.2⟩)
  exact hcorner.inCross hsq (isSet_dilatePixelwise_of_inCross hq (inCross_self q) hqin)

/-- **Dilation merges the components by sides and corners** to components by sides. -/
theorem merges_dilatePixelwise (r : Raster) : Merges r .eight r.dilatePixelwise .four where
  joined h := by
    induction h with
    | here h => exact .here (isSet_dilatePixelwise_of_inCross h (inCross_self _) (inside_of_isSet h))
    | step h ha hs ih => exact ih.trans (joined_dilatePixelwise_of_adjacent h.isSet_right hs ha)
  exists_joined {q} hq := by
    obtain ⟨hqin, p, hqp, hp⟩ := isSet_dilatePixelwise_iff.mp hq
    have hset := isSet_dilatePixelwise_of_inCross hp (inCross_self p) (inside_of_isSet hp)
    exact ⟨p, hp, (Joined.here hset).inCross hqp.symm hq⟩

theorem merges_dilateWith {s : Strategy} (hp : r.PaddingClear) (hw : 2 ≤ r.width)
    (hh : 2 ≤ r.height)
    (hd : r.dilateWith s = .ok d) : Merges r .eight d .four := by
  rw [dilateWith_eq s hp hw hh] at hd
  exact Except.ok.inj hd ▸ merges_dilatePixelwise r

/-! ## Labels -/

theorem numberOf_eq_numberOf_iff : r.numberOf c p = r.numberOf c q ↔
    r.isSet p.x p.y = r.isSet q.x q.y ∧ (r.isSet p.x p.y = true → r.Joined c p q) := by
  rcases hp : r.isSet p.x p.y with _ | _ <;> rcases hq : r.isSet q.x q.y with _ | _
  · simp [numberOf_of_clear hp, numberOf_of_clear hq]
  · simp [numberOf_of_clear hp, (numberOf_pos (c := c) hq).ne]
  · simp [numberOf_of_clear hq, (numberOf_pos (c := c) hp).ne']
  · simp [numberOf_eq_iff hp hq]

section

variable {g : LabelGrid} {count : Nat} (hw : g.width = r.width) (hh : g.height = r.height)
  (h : r.NumbersComponents c g.labels count)
include hw hh h

theorem get?_eq_map_numberOf (p : Point) :
    g.get? p.x p.y = (r.get? p.x p.y).map fun _ => r.numberOf c p := by
  by_cases hp : r.Inside p.x p.y
  · rw [get?_eq_labels hw hh hp, get?_of_inside hp, Option.map_some,
      getElem?_eq_some_iff_labelAt h.size_labels hp, h.labelAt_eq hp]
  · rw [get?_of_not_inside hp, LabelGrid.get?_of_not_inside (by rwa [hw, hh])]
    rfl

theorem get?_eq_get?_iff : g.get? p.x p.y = g.get? q.x q.y ↔
    r.get? p.x p.y = r.get? q.x q.y ∧ (r.isSet p.x p.y = true → r.Joined c p q) := by
  rw [get?_eq_map_numberOf hw hh h p, get?_eq_map_numberOf hw hh h q]
  unfold isSet
  rcases hp : r.get? p.x p.y with _ | b <;> rcases hq : r.get? q.x q.y with _ | b'
  · simp
  · simp
  · simp
  · have hnumber := numberOf_eq_numberOf_iff (r := r) (c := c) (p := p) (q := q)
    unfold isSet at hnumber
    rw [hp, hq] at hnumber
    simpa using hnumber

end

theorem countComponents_of_label {o : Options} {l : Labeling} (hf : o.filterIsolated = false)
    (hl : r.label o = .ok l) : r.countComponents o.connectivity = .ok l.count := by
  obtain ⟨hw, hh⟩ := sides_of_label hl
  obtain ⟨l', hl'⟩ := exists_label (o := .of o.connectivity) hw hh (runCount_lt_of_label hf hl) rfl
  obtain ⟨-, -, hn⟩ := numbersComponents_of_label hf hl
  obtain ⟨-, -, hn'⟩ := numbersComponents_of_label rfl hl'
  unfold countComponents
  rw [hl']
  exact congrArg Except.ok (hn'.unique hn).2

/-- **Dilation bridges corners**: whenever the labelings succeed and the padding is clear, pixels of
one label by sides have one label by sides and corners, set pixels of one such label have one label
by sides in the dilated picture, and the number of components never rises on the way. -/
theorem dilation_bridges_corners {a₄ a₈ a : Algorithm} {s s₄ s₈ s' : Strategy} {l l₄ l₈ : Labeling}
    (hp : r.PaddingClear) (hd : r.dilateWith s' = .ok d)
    (h₄ : r.label ⟨.four, a₄, false, s₄⟩ = .ok l₄) (h₈ : r.label ⟨.eight, a₈, false, s₈⟩ = .ok l₈)
    (h : d.label ⟨.four, a, false, s⟩ = .ok l) :
    (r.countComponents .four = .ok l₄.count ∧ r.countComponents .eight = .ok l₈.count ∧
      d.countComponents .four = .ok l.count) ∧
    (l.count ≤ l₈.count ∧ l₈.count ≤ l₄.count) ∧
    (∀ p q : Point, l₄.grid.get? p.x p.y = l₄.grid.get? q.x q.y →
      l₈.grid.get? p.x p.y = l₈.grid.get? q.x q.y) ∧
    ∀ p q : Point, r.isSet p.x p.y = true → r.isSet q.x q.y = true →
      l₈.grid.get? p.x p.y = l₈.grid.get? q.x q.y → l.grid.get? p.x p.y = l.grid.get? q.x q.y := by
  obtain ⟨hw2, hh2⟩ := sides_of_label h₄
  have hd' := merges_dilateWith hp hw2 hh2 hd
  obtain ⟨hw₄, hh₄, hn₄⟩ := numbersComponents_of_label (o := ⟨.four, a₄, false, s₄⟩) rfl h₄
  obtain ⟨hw₈, hh₈, hn₈⟩ := numbersComponents_of_label (o := ⟨.eight, a₈, false, s₈⟩) rfl h₈
  obtain ⟨hw, hh, hn⟩ := numbersComponents_of_label (o := ⟨.four, a, false, s⟩) rfl h
  have hc₄ := countComponents_of_label (o := ⟨.four, a₄, false, s₄⟩) rfl h₄
  have hc₈ := countComponents_of_label (o := ⟨.eight, a₈, false, s₈⟩) rfl h₈
  have hc := countComponents_of_label (o := ⟨.four, a, false, s⟩) rfl h
  refine ⟨⟨hc₄, hc₈, hc⟩, ⟨hd'.count_le hn₈ hn, r.merges_eight.count_le hn₄ hn₈⟩,
    fun p q hpq => ?_, fun p q hpset _ hpq => ?_⟩
  · obtain ⟨hget, hj⟩ := (get?_eq_get?_iff hw₄ hh₄ hn₄).mp hpq
    exact (get?_eq_get?_iff hw₈ hh₈ hn₈).mpr ⟨hget, fun hpset => r.merges_eight.joined (hj hpset)⟩
  · have hj := hd'.joined (((get?_eq_get?_iff hw₈ hh₈ hn₈).mp hpq).2 hpset)
    refine (get?_eq_get?_iff hw hh hn).mpr ⟨?_, fun _ => hj⟩
    rw [get?_of_isSet hj.isSet_left, get?_of_isSet hj.isSet_right]

/-- Two pixels at a corner across two bytes, and a third that dilation joins to them. -/
theorem dilation_bridges_corners_across_bytes :
    let r : Raster := ⟨10, 2, #[0x05, 0x00, 0x00, 0x80], by decide, by decide, by decide⟩
    let d : Raster := ⟨10, 2, #[0x0f, 0x80, 0x05, 0xc0], by decide, by decide, by decide⟩
    let l₄ : Labeling := ⟨⟨10, 2, #[0, 0, 0, 0, 0, 1, 0, 2, 0, 0, 0, 0, 0, 0, 0, 0, 0, 0, 3, 0],
      by decide, by decide, by decide⟩, 3⟩
    let l₈ : Labeling := ⟨⟨10, 2, #[0, 0, 0, 0, 0, 1, 0, 2, 0, 0, 0, 0, 0, 0, 0, 0, 0, 0, 2, 0],
      by decide, by decide, by decide⟩, 2⟩
    let l : Labeling := ⟨⟨10, 2, #[0, 0, 0, 0, 1, 1, 1, 1, 1, 0, 0, 0, 0, 0, 0, 1, 0, 1, 1, 1],
      by decide, by decide, by decide⟩, 1⟩
    r.PaddingClear ∧ r.dilateWith (.parallel ⟨[1]⟩) = .ok d ∧
      r.label ⟨.four, .eager, false, .serial⟩ = .ok l₄ ∧
      r.label ⟨.eight, .deferred, false, .parallel ⟨[1]⟩⟩ = .ok l₈ ∧
      d.label ⟨.four, .deferred, false, .serial⟩ = .ok l ∧
      (r.countComponents .four = .ok 3 ∧ r.countComponents .eight = .ok 2 ∧
        d.countComponents .four = .ok 1) ∧
      (1 ≤ 2 ∧ 2 ≤ 3) ∧
      (∀ p q : Point, l₄.grid.get? p.x p.y = l₄.grid.get? q.x q.y →
        l₈.grid.get? p.x p.y = l₈.grid.get? q.x q.y) ∧
      ∀ p q : Point, r.isSet p.x p.y = true → r.isSet q.x q.y = true →
        l₈.grid.get? p.x p.y = l₈.grid.get? q.x q.y →
          l.grid.get? p.x p.y = l.grid.get? q.x q.y := by
  intro r d l₄ l₈ l
  have hp : r.PaddingClear := by decide
  have hd : r.dilateWith (.parallel ⟨[1]⟩) = .ok d := by decide +kernel
  have h₄ : r.label ⟨.four, .eager, false, .serial⟩ = .ok l₄ := by decide +kernel
  have h₈ : r.label ⟨.eight, .deferred, false, .parallel ⟨[1]⟩⟩ = .ok l₈ := by decide +kernel
  have h : d.label ⟨.four, .deferred, false, .serial⟩ = .ok l := by decide +kernel
  exact ⟨hp, hd, h₄, h₈, h, dilation_bridges_corners hp hd h₄ h₈ h⟩

end Raster

end Bitplane
