import Bitplane.Proofs.Raster.CleanResults
import Bitplane.Proofs.Region.CutComponents
import Bitplane.Workbench

/-! # Runs of the workbench

A run is *guarded* if each write of a single pixel, when its turn comes, lies in the picture, and if
bytes are not written as such. Guarded runs keep every raster well formed.

* `get_put`: the register written holds the new raster, all others what they held.
* `StoresIn`, `Action.storesIn`: an action puts what it answers into its register, or fails and
  changes nothing.
* `Operator.clean_apply`, `Edit.cleanAs_left`: what one operator or edit makes of a raster with
  clear padding; `Action.clean_answer`: what an action answers.
* `wellFormed_step`, `wellFormed_run`: one action and a whole run keep the registers well formed.
* `guarded_runs_stay_well_formed`: after every action of a guarded run. -/

namespace Bitplane

open Byte (stride)

/-- **The raster is as every operation expects it**: no side is zero, a row takes the least number
of bytes that holds it, and there is nothing beyond the rows and the picture. -/
structure Raster.WellFormed (r : Raster) : Prop where
  width_pos : 0 < r.width
  height_pos : 0 < r.height
  stride_least : r.width ≤ 8 * stride r.width ∧ 8 * stride r.width < r.width + 8
  size_bytes : r.bytes.size = stride r.width * r.height
  paddingClear : r.PaddingClear

theorem Raster.PaddingClear.wellFormed {r : Raster} (hp : r.PaddingClear) : r.WellFormed where
  width_pos := r.width_pos
  height_pos := r.height_pos
  stride_least := by unfold stride; omega
  size_bytes := r.size_bytes
  paddingClear := hp

namespace Workbench

variable {w : Workbench} {a : Action} {as bs : List Action} {p r : Raster} {f : Fault} {i j : Nat}

/-! ## Registers -/

/-- **Every raster on the bench is well formed.** -/
def WellFormed (w : Workbench) : Prop := ∀ i r, w.get i = .ok r → r.WellFormed

theorem get_put (w : Workbench) (i j : Nat) (r : Raster) :
    (w.put i r).get j = if i = j then .ok r else w.get j := by
  unfold get put
  by_cases h : i = j <;> simp [h]

theorem put_eq_self (h : w.get i = .ok r) : w.put i r = w := by
  have hr : w.registers i = some r := by
    unfold get at h
    cases hi : w.registers i with
    | none => rw [hi] at h; cases h
    | some r' => rw [hi] at h; rw [Except.ok.inj h]
  unfold put
  congr
  funext j
  split
  next hij => rw [← hij, hr]
  next => rfl

theorem WellFormed.put (hw : w.WellFormed) (hr : r.WellFormed) : (w.put i r).WellFormed := by
  intro j s hs
  rw [get_put] at hs
  split at hs
  next => exact Except.ok.inj hs ▸ hr
  next => exact hw j s hs

theorem wellFormed_vacant : vacant.WellFormed := by
  intro i r hr
  cases hr

/-! ## Operators and edits -/

/-- **The size of a result against that of the operand**: a mask fits into the picture, and
everything else has its size. -/
def Operator.SizesAgree (p r : Raster) : Operator → Prop
  | mask _ _ => r.width ≤ p.width ∧ r.height ≤ p.height
  | _ => r.size = p.size

/-- **The size of a result against that of the operands**, which are there. -/
def Action.SizesAgree (w : Workbench) (r : Raster) : Action → Prop
  | load _ _ => True
  | operate op a _ => ∃ p, w.get a = .ok p ∧ op.SizesAgree p r
  | combine _ a b _ => ∃ p q, w.get a = .ok p ∧ w.get b = .ok q ∧ r.size = p.size ∧ r.size = q.size
  | edit _ a => ∃ p, w.get a = .ok p ∧ r.size = p.size

/-- **The action writes no pixel outside a picture.** -/
def Action.Guarded (w : Workbench) : Action → Prop
  | edit e a => ∀ r, w.get a = .ok r → e.Guarded r
  | _ => True

/-- **Each action is guarded when its turn comes.** -/
def Guarded : Workbench → List Action → Prop
  | _, [] => True
  | w, a :: as => a.Guarded w ∧ Guarded (w.step a).1 as

theorem run_cons (w : Workbench) (a : Action) (as : List Action) :
    w.run (a :: as) = (w.step a).1.run as := List.foldl_cons ..

theorem guarded_append : w.Guarded (as ++ bs) ↔ w.Guarded as ∧ (w.run as).Guarded bs := by
  induction as generalizing w with
  | nil => exact (iff_of_eq (true_and _)).symm
  | cons a as ih =>
    rw [List.cons_append, run_cons]
    simp only [Guarded, ih, and_assoc]

theorem Operator.clean_apply {op : Operator} (hp : p.PaddingClear) (hr : op.apply p = .ok r) :
    r.PaddingClear ∧ op.SizesAgree p r := by
  have of_cleanAs (hc : r.CleanAs p) : r.PaddingClear ∧ r.size = p.size :=
    ⟨hc.paddingClear, hc.size_eq⟩
  cases op with
  | dilate s => exact of_cleanAs (Raster.cleanAs_dilateWith (ok_of_mapError_ok hr))
  | erode s => exact of_cleanAs (Raster.cleanAs_erodeWith (ok_of_mapError_ok hr))
  | filterIsolated s => exact of_cleanAs (Raster.cleanAs_filterIsolatedWith (ok_of_mapError_ok hr))
  | opening => exact of_cleanAs (Raster.cleanAs_opening (ok_of_mapError_ok hr))
  | closing => exact of_cleanAs (Raster.cleanAs_closing (ok_of_mapError_ok hr))
  | gradient => exact of_cleanAs (Raster.cleanAs_gradient (ok_of_mapError_ok hr))
  | topHat => exact of_cleanAs (Raster.cleanAs_topHat hp (ok_of_mapError_ok hr))
  | dilatePixelwise => exact of_cleanAs (Except.ok.inj hr ▸ p.cleanAs_tabulate _)
  | erodePixelwise => exact of_cleanAs (Except.ok.inj hr ▸ p.cleanAs_tabulate _)
  | filterIsolatedPixelwise => exact of_cleanAs (Except.ok.inj hr ▸ p.cleanAs_tabulate _)
  | invert => exact of_cleanAs (Except.ok.inj hr ▸ p.cleanAs_invert)
  | copy => exact of_cleanAs (Except.ok.inj hr ▸ hp.cleanAs)
  | template => exact of_cleanAs (Except.ok.inj hr ▸ p.cleanAs_template)
  | repack => exact of_cleanAs (Raster.cleanAs_repack (ok_of_mapError_ok hr))
  | mask o i =>
    obtain ⟨bs, hbs, hmask⟩ := exists_of_bind_ok hr
    cases hb : bs[i]? with
    | none => rw [hb] at hmask; cases hmask
    | some b =>
      rw [hb] at hmask
      obtain rfl := Except.ok.inj hmask
      exact Raster.mask_of_components hp (ok_of_mapError_ok hbs) (List.mem_of_getElem? hb)

theorem overwrite_keepsOnError (f : Raster → Option Raster) : (overwrite f).KeepsOnError := by
  refine .get_bind fun r => ?_
  split
  · exact .set _
  · exact .throw _

theorem left_overwrite (f : Raster → Option Raster) (p : Raster) :
    (overwrite f).left p = (f p).elim (.error .outside) .ok := by
  unfold overwrite Held.left
  rw [Held.runOn_get_bind]
  cases f p <;> rfl

/-- **An edit that fails has written nothing.** -/
theorem Edit.perform_keepsOnError (e : Edit) : e.perform.KeepsOnError := by
  cases e with
  | setPixel x y v => exact (Raster.write_keepsOnError x y v).adapt _
  | putPixel x y v => exact overwrite_keepsOnError _
  | clearPadding => exact overwrite_keepsOnError _
  | writeBytes i bs => exact overwrite_keepsOnError _
  | writeRow y bs => exact overwrite_keepsOnError _

theorem Edit.cleanAs_left {e : Edit} (hp : p.PaddingClear) (he : e.Guarded p)
    (hr : e.perform.left p = .ok r) : r.CleanAs p := by
  cases e with
  | setPixel x y v =>
    rw [Edit.perform, Held.left_adapt] at hr
    exact Raster.cleanAs_set hp (ok_of_mapError_ok hr)
  | putPixel x y v =>
    rw [Edit.perform, left_overwrite, Raster.put?_eq he v] at hr
    exact Except.ok.inj hr ▸ Raster.cleanAs_put hp he v
  | clearPadding =>
    rw [Edit.perform, left_overwrite] at hr
    exact Except.ok.inj hr ▸ p.cleanAs_clearPadding
  | writeBytes i bs => exact he.elim
  | writeRow y bs => exact he.elim

/-! ## Single actions -/

/-- **The step puts what it answers into a register**, or fails and leaves the bench as it was. -/
structure StoresIn (x : Held Fault Workbench Raster) (i : Nat) : Prop where
  stored : ∀ w r, (x.runOn w).1 = .ok r → (x.runOn w).2 = w.put i r
  keepsOnError : x.KeepsOnError

theorem store_storesIn (i : Nat) (r : Raster) : StoresIn (store i r) i where
  stored _ _ h := by
    obtain rfl := Except.ok.inj h
    rfl
  keepsOnError _ _ h := nomatch h

theorem StoresIn.aside_bind {α : Type} {x : Except Fault α} {f : α → Held Fault Workbench Raster}
    (hf : ∀ a, StoresIn (f a) i) : StoresIn (Held.aside x >>= f) i where
  stored w r h := by
    rw [Held.runOn_aside_bind] at h ⊢
    cases x with
    | error e => cases h
    | ok a => exact (hf a).stored w r h
  keepsOnError := .aside_bind fun a => (hf a).keepsOnError

theorem StoresIn.fetch_bind {f : Raster → Held Fault Workbench Raster} {j : Nat}
    (hf : ∀ p, StoresIn (f p) i) : StoresIn (fetch j >>= f) i where
  stored w r := (StoresIn.aside_bind (x := w.get j) hf).stored w r
  keepsOnError w := (StoresIn.aside_bind (x := w.get j) hf).keepsOnError w

theorem runOn_fetch_bind {α : Type} (f : Raster → Held Fault Workbench α) (i : Nat)
    (w : Workbench) :
    (fetch i >>= f).runOn w = (Held.aside (w.get i) >>= f).runOn w := rfl

theorem runOn_change (hp : w.get i = .ok p) (e : Edit) :
    (change e i).runOn w = (e.perform.left p, w.put i (e.perform.runOn p).2) := by
  unfold change Held.left
  rw [runOn_fetch_bind, hp, Held.runOn_aside_bind]
  simp only
  rw [Held.runOn_modify_bind, Held.runOn_aside_bind]
  cases (e.perform.runOn p).1 <;> rfl

theorem runOn_change_error (hp : w.get i = .error f) (e : Edit) :
    (change e i).runOn w = (.error f, w) := by
  unfold change
  rw [runOn_fetch_bind, hp, Held.runOn_aside_bind]

theorem change_storesIn (e : Edit) (i : Nat) : StoresIn (change e i) i where
  stored w r h := by
    cases hp : w.get i with
    | error f =>
      rw [runOn_change_error hp] at h
      cases h
    | ok p =>
      rw [runOn_change hp] at h ⊢
      rw [Held.runOn_of_left_ok h]
  keepsOnError w f h := by
    cases hp : w.get i with
    | error g => rw [runOn_change_error hp]
    | ok p =>
      rw [runOn_change hp] at h ⊢
      rw [e.perform_keepsOnError p f (Held.runOn_of_left_error h)]
      exact put_eq_self hp

theorem Action.storesIn (a : Action) : StoresIn a.perform a.target := by
  cases a with
  | load dst s => exact .aside_bind fun r => store_storesIn dst r
  | operate op i dst => exact .fetch_bind fun p => .aside_bind fun r => store_storesIn dst r
  | combine op i j dst =>
    exact .fetch_bind fun p => .fetch_bind fun q => .aside_bind fun r => store_storesIn dst r
  | edit e i => exact change_storesIn e i

/-- **What an action answers** on a bench of rasters with clear padding. -/
theorem Action.clean_answer (hw : w.WellFormed) (ha : a.Guarded w)
    (hr : (a.perform.runOn w).1 = .ok r) :
    r.PaddingClear ∧ a.SizesAgree w r := by
  cases a with
  | load dst s =>
    obtain ⟨r', hbuild, hstore⟩ := Held.exists_of_runOn_aside_bind hr
    obtain rfl : r' = r := Except.ok.inj hstore
    exact ⟨Source.paddingClear_build (ok_of_mapError_ok hbuild), trivial⟩
  | operate op i dst =>
    obtain ⟨p, hp, hr⟩ := Held.exists_of_runOn_aside_bind hr
    obtain ⟨r', happly, hstore⟩ := Held.exists_of_runOn_aside_bind hr
    obtain rfl : r' = r := Except.ok.inj hstore
    obtain ⟨hclear, hsize⟩ := op.clean_apply (hw i p hp).paddingClear happly
    exact ⟨hclear, p, hp, hsize⟩
  | combine op i j dst =>
    obtain ⟨p, hp, hr⟩ := Held.exists_of_runOn_aside_bind hr
    obtain ⟨q, hq, hr⟩ := Held.exists_of_runOn_aside_bind hr
    obtain ⟨r', hc, hstore⟩ := Held.exists_of_runOn_aside_bind hr
    obtain rfl : r' = r := Except.ok.inj hstore
    obtain ⟨hcp, hcq⟩ := Raster.cleanAs_combine (hw i p hp).paddingClear (hw j q hq).paddingClear
      (ok_of_mapError_ok hc)
    exact ⟨hcp.paddingClear, p, q, hp, hq, hcp.size_eq, hcq.size_eq⟩
  | edit e i =>
    change ((change e i).runOn w).1 = .ok r at hr
    obtain ⟨p, hp, -⟩ := Held.exists_of_runOn_aside_bind hr
    rw [runOn_change hp] at hr
    have hc := e.cleanAs_left (hw i p hp).paddingClear (ha p hp) hr
    exact ⟨hc.paddingClear, p, hp, hc.size_eq⟩

/-! ## Steps and runs -/

theorem step_ok (hr : (w.step a).2 = .ok r) : (w.step a).1 = w.put a.target r :=
  a.storesIn.stored w r hr

theorem step_error (hf : (w.step a).2 = .error f) : (w.step a).1 = w :=
  a.storesIn.keepsOnError w f hf

/-- **One guarded action keeps the bench well formed**: it puts a well-formed raster into a register
or fails and changes nothing. -/
theorem wellFormed_step (hw : w.WellFormed) (ha : a.Guarded w) : (w.step a).1.WellFormed := by
  cases hr : (w.step a).2 with
  | error f => rwa [step_error hr]
  | ok r =>
    rw [step_ok hr]
    exact hw.put (Action.clean_answer hw ha hr).1.wellFormed

theorem wellFormed_run (hw : w.WellFormed) (has : w.Guarded as) : (w.run as).WellFormed := by
  induction as generalizing w with
  | nil => exact hw
  | cons a as ih =>
    -- the other actions are guarded on the bench that the first one leaves
    rw [run_cons]
    exact ih (wellFormed_step hw has.1) has.2

/-- **Guarded runs stay well formed.** From the vacant bench, after any guarded run and after one
more action of it, every raster is well formed. Where that action answers a raster, it is of its
operands' size and only the register written changes; where it fails, nothing changes. -/
theorem guarded_runs_stay_well_formed (as : List Action) (a : Action)
    (h : Guarded vacant (as ++ [a])) :
    (vacant.run as).WellFormed ∧ ((vacant.run as).step a).1.WellFormed ∧
      (∀ r, ((vacant.run as).step a).2 = .ok r → a.SizesAgree (vacant.run as) r ∧
        ∀ i, ((vacant.run as).step a).1.get i =
          if a.target = i then .ok r else (vacant.run as).get i) ∧
      ∀ f, ((vacant.run as).step a).2 = .error f → ((vacant.run as).step a).1 = vacant.run as := by
  obtain ⟨has, ha, -⟩ := guarded_append.mp h
  have hw := wellFormed_run wellFormed_vacant has
  refine ⟨hw, wellFormed_step hw ha, fun r hr => ⟨(Action.clean_answer hw ha hr).2, fun i => ?_⟩,
    fun f => step_error⟩
  rw [step_ok hr, get_put]

/-- Four actions on rasters with six pixels of padding in every row, loaded from bytes where they
are set, and a last one that fails. -/
theorem guarded_runs_stay_well_formed_padded :
    let as : List Action := [.load 0 (.bytes 10 2 #[0xff, 0xff, 0x00, 0x3f]),
      .edit (.putPixel 9 1 true) 0, .operate .invert 0 1, .combine .subtract 0 1 2]
    let a : Action := .edit (.setPixel 10 1 true) 2
    Guarded vacant (as ++ [a]) ∧ (vacant.run as).WellFormed ∧
      (∃ r, (vacant.run as).get 2 = .ok r ∧ r.bytes = #[0xff, 0xc0, 0x00, 0x40] ∧ r.WellFormed) ∧
      ((vacant.run as).step a).2 = .error (.raster (.indexOutOfBounds 10 10)) ∧
      ((vacant.run as).step a).1 = vacant.run as := by
  intro as a
  have hguarded : Guarded vacant (as ++ [a]) := by
    refine ⟨trivial, fun r hr => ?_, trivial, trivial, fun _ _ => trivial, trivial⟩
    obtain rfl := Except.ok.inj hr
    exact (by decide : 9 < 10 ∧ 1 < 2)
  obtain ⟨hw, -, -, herror⟩ := guarded_runs_stay_well_formed as a hguarded
  have hfails : ((vacant.run as).step a).2 = .error (.raster (.indexOutOfBounds 10 10)) := rfl
  exact ⟨hguarded, hw, ⟨_, rfl, rfl, hw 2 _ rfl⟩, hfails, herror _ hfails⟩

end Workbench

end Bitplane
