import Mathlib.Data.List.Nodup
import Bitplane.Rows.Lemmas

/-! # Rows in any schedule

A *schedule* visits every full row once, in whatever order. The visits need not even be over one by
one: the call of a row may be cut into *turns*, each of which reads and writes that row only, and
the turns of all rows may alternate as they please.

* `rowOf_runTurns`, `getElem?_runTurns`: after some turns a row is what its own turns made of it,
  and what lies behind the full rows stays; the turns of other rows do not show.
* `RowsReplaced`: what a pass is to leave, which no two buffers do (`RowsReplaced.unique`).
* `isSchedule_iff_exists_order`: the schedules are the orders of parallel passes.
* `IsSchedule.interleaves`: visits one after the other are turns too, each the whole call of its
  row.
* `rows_in_any_schedule`: so every schedule leaves the same buffer and gathers the same values. -/

namespace Bitplane.Rows

variable {α β : Type} {n k y z j : Nat} {f : Nat → List α → List α} {buf out out' : Array α}

/-- **Every full row `y` is replaced by `f y` of it**, and nothing else is changed. -/
structure RowsReplaced (n : Nat) (f : Nat → List α → List α) (buf out : Array α) : Prop where
  size_eq : out.size = buf.size
  rowOf_eq : ∀ y < fullRows n buf, rowOf n out y = f y (rowOf n buf y)
  rest_eq : ∀ j, n * fullRows n buf ≤ j → out[j]? = buf[j]?

theorem RowsReplaced.unique (hn : 0 < n) (h : RowsReplaced n f buf out)
    (h' : RowsReplaced n f buf out') : out = out' := by
  have hfull : fullRows n out = fullRows n buf := by rw [fullRows, h.size_eq, fullRows]
  apply eq_of_rowOf hn
  · intro y hy
    rw [hfull] at hy
    rw [h.rowOf_eq y hy, h'.rowOf_eq y hy]
  · intro j hj
    rw [hfull] at hj
    rw [h.rest_eq j hj, h'.rest_eq j hj]

/-! ## Turns -/

/-- A part of the call of a row. -/
structure Turn (α : Type) where
  row : Nat
  act : List α → List α

/-- The buffer after some turns. -/
def runTurns (n : Nat) (ts : List (Turn α)) (buf : Array α) : Array α :=
  ts.foldl (fun buf t => visit n (fun _ => t.act) buf t.row) buf

/-- What the turns of row `y` make of its entries. -/
def callOf (y : Nat) (ts : List (Turn α)) (row : List α) : List α :=
  (ts.filter fun t => t.row = y).foldl (fun row t => t.act row) row

/-- **The turns are the calls of `k` rows cut to pieces**: in whatever way the rows alternate, the
turns of a row make up its call. -/
structure Interleaves (n k : Nat) (f : Nat → List α → List α) (ts : List (Turn α)) : Prop where
  row_lt : ∀ t ∈ ts, t.row < k
  length_act : ∀ t ∈ ts, ∀ row : List α, row.length = n → (t.act row).length = n
  callOf_eq : ∀ y < k, ∀ row : List α, row.length = n → callOf y ts row = f y row

@[simp] theorem size_runTurns (n : Nat) (ts : List (Turn α)) : ∀ buf : Array α,
    (runTurns n ts buf).size = buf.size := by
  unfold runTurns
  induction ts with
  | nil => intro buf; rfl
  | cons t ts ih => intro buf; rw [List.foldl_cons, ih, size_visit]

theorem callOf_cons_self (t : Turn α) (ts : List (Turn α)) (row : List α) :
    callOf t.row (t :: ts) row = callOf t.row ts (t.act row) := by
  unfold callOf
  rw [List.filter_cons_of_pos (by simp), List.foldl_cons]

theorem callOf_cons_of_ne {t : Turn α} (h : t.row ≠ y) (ts : List (Turn α)) (row : List α) :
    callOf y (t :: ts) row = callOf y ts row := by
  unfold callOf
  rw [List.filter_cons_of_neg (by simpa using h)]

section

variable {ts : List (Turn α)} (hlt : ∀ t ∈ ts, t.row < fullRows n buf)
  (hlen : ∀ t ∈ ts, ∀ row : List α, row.length = n → (t.act row).length = n)
include hlt hlen

theorem rowOf_runTurns (z : Nat) :
    rowOf n (runTurns n ts buf) z = callOf z ts (rowOf n buf z) := by
  induction ts generalizing buf with
  | nil => rfl
  | cons t ts ih =>
    have ht : t.row < fullRows n buf := hlt t (List.mem_cons_self ..)
    have hkeep : KeepsLength n (fullRows n buf) fun _ => t.act :=
      fun _ _ => hlen t (List.mem_cons_self ..)
    have hrest := @ih (visit n (fun _ => t.act) buf t.row)
      (fun u hu => by rw [fullRows_visit]; exact hlt u (List.mem_cons_of_mem t hu))
      fun u hu => hlen u (List.mem_cons_of_mem t hu)
    refine hrest.trans ?_
    rw [rowOf_visit hkeep ht]
    by_cases hz : z = t.row
    · subst hz
      rw [if_pos rfl, callOf_cons_self]
    · rw [if_neg hz, callOf_cons_of_ne (Ne.symm hz)]

theorem getElem?_runTurns (hj : n * fullRows n buf ≤ j) : (runTurns n ts buf)[j]? = buf[j]? := by
  induction ts generalizing buf with
  | nil => rfl
  | cons t ts ih =>
    have ht : t.row < fullRows n buf := hlt t (List.mem_cons_self ..)
    have hkeep : KeepsLength n (fullRows n buf) fun _ => t.act :=
      fun _ _ => hlen t (List.mem_cons_self ..)
    have hrest := @ih (visit n (fun _ => t.act) buf t.row)
      (fun u hu => by rw [fullRows_visit]; exact hlt u (List.mem_cons_of_mem t hu))
      (fun u hu => hlen u (List.mem_cons_of_mem t hu)) (by rwa [fullRows_visit])
    refine hrest.trans ?_
    have hend := Nat.mul_le_mul_left n (Nat.succ_le_of_lt ht)
    rw [Nat.succ_eq_add_one, Nat.mul_add, Nat.mul_one] at hend
    rw [getElem?_visit hkeep ht, if_neg (by omega)]

end

/-- **However the rows alternate, every row is replaced.** -/
theorem Interleaves.rowsReplaced {ts : List (Turn α)}
    (h : Interleaves n (fullRows n buf) f ts) : RowsReplaced n f buf (runTurns n ts buf) where
  size_eq := size_runTurns n ts buf
  rowOf_eq y hy := by
    rw [rowOf_runTurns h.row_lt h.length_act, h.callOf_eq y hy _ (length_rowOf hy)]
  rest_eq _ hj := getElem?_runTurns h.row_lt h.length_act hj

/-! ## Schedules -/

/-- **Each of `k` rows once**, in some order. -/
def IsSchedule (k : Nat) (order : List Nat) : Prop := order.Perm (List.range k)

theorem IsSchedule.mem_iff {order : List Nat} (h : IsSchedule k order) : y ∈ order ↔ y < k := by
  rw [List.Perm.mem_iff h, List.mem_range]

/-- **Schedules are the orders of the strategies.** -/
theorem isSchedule_iff_exists_order {order : List Nat} :
    IsSchedule k order ↔ ∃ s : Strategy, s.order k = order := by
  constructor
  · intro h
    obtain ⟨schedule, hs⟩ := Schedule.exists_order h
    exact ⟨.parallel schedule, hs⟩
  · rintro ⟨s, rfl⟩
    exact s.order_perm k

theorem isSchedule_order (s : Strategy) (k : Nat) : IsSchedule k (s.order k) :=
  isSchedule_iff_exists_order.mpr ⟨s, rfl⟩

/-- The whole calls of some rows, as turns. -/
def wholeCalls (f : Nat → List α → List α) (order : List Nat) : List (Turn α) :=
  order.map fun y => ⟨y, f y⟩

theorem updateIn_eq_runTurns (order : List Nat) (n : Nat) (f : Nat → List α → List α)
    (buf : Array α) : updateIn order n f buf = runTurns n (wholeCalls f order) buf := by
  unfold updateIn runTurns wholeCalls
  rw [List.foldl_map]
  rfl

/-- **Visits one after the other are turns**: of each row there is one, its whole call. -/
theorem IsSchedule.interleaves {order : List Nat} (h : IsSchedule k order)
    (hf : KeepsLength n k f) : Interleaves n k f (wholeCalls f order) := by
  unfold wholeCalls
  refine ⟨fun t ht => ?_, fun t ht row hrow => ?_, fun y hy row _ => ?_⟩
  · obtain ⟨y, hy, rfl⟩ := List.mem_map.mp ht
    exact h.mem_iff.mp hy
  · obtain ⟨y, hy, rfl⟩ := List.mem_map.mp ht
    exact hf y (h.mem_iff.mp hy) row hrow
  · have hnd : order.Nodup := h.nodup_iff.mpr List.nodup_range
    have hcount : order.count y = 1 := List.count_eq_one_of_mem hnd (h.mem_iff.mpr hy)
    have hone : order.filter (fun x => decide (x = y)) = [y] := by
      rw [List.filter_eq, hcount]
      rfl
    unfold callOf
    rw [List.filter_map, Function.comp_def, hone]
    rfl

/-- **Every schedule gives the same answer.** Where each row is replaced by one of its length, both
strategies, all orders of the visits and all turns that make up the calls leave one buffer, in which
the full rows are replaced and what lies behind them is not; and the values of the full rows are
gathered in row order, in whatever order they are computed. -/
theorem rows_in_any_schedule (hn : 0 < n) (hf : KeepsLength n (fullRows n buf) f) (g : List α → β) :
    (∃ out, RowsReplaced n f buf out ∧ (∀ s, update? s n f buf = some out) ∧
      (∀ order, IsSchedule (fullRows n buf) order → updateIn order n f buf = out) ∧
      ∀ ts, Interleaves n (fullRows n buf) f ts → runTurns n ts buf = out) ∧
    ∃ vs : List β, vs = ((List.range (fullRows n buf)).map fun y => g (rowOf n buf y)) ∧
      (∀ s, gather? s n g buf = some vs) ∧
      ∀ order, IsSchedule (fullRows n buf) order → gatherIn order n g buf = vs := by
  have hn0 : n ≠ 0 := Nat.ne_of_gt hn
  have hserial := ((isSchedule_order .serial (fullRows n buf)).interleaves hf).rowsReplaced
  have hturns : ∀ ts, Interleaves n (fullRows n buf) f ts →
      runTurns n ts buf = runTurns n (wholeCalls f (Strategy.serial.order (fullRows n buf))) buf :=
    fun ts hts => hts.rowsReplaced.unique hn hserial
  have horder : ∀ order, IsSchedule (fullRows n buf) order → updateIn order n f buf =
      runTurns n (wholeCalls f (Strategy.serial.order (fullRows n buf))) buf := fun order ho => by
    rw [updateIn_eq_runTurns]
    exact hturns _ (ho.interleaves hf)
  refine ⟨⟨_, hserial, fun s => ?_, horder, hturns⟩, _, rfl, fun s => ?_, fun order ho => ?_⟩
  · rw [update?, if_neg hn0, update, horder _ (isSchedule_order s _)]
  · rw [gather?, if_neg hn0, gather_eq]
  · exact gatherIn_eq fun y => ho.mem_iff

/-- Two rows and a part of a third; the second row is at work while the first is replaced. -/
theorem rows_in_any_schedule_alternating :
    let buf := #[1, 2, 3, 4, 5]
    let f := fun y (row : List Nat) => (row.map (· + 10 * y)).reverse
    let ts : List (Turn Nat) :=
      [⟨1, List.map (· + 10)⟩, ⟨0, List.reverse⟩, ⟨1, List.reverse⟩]
    0 < 2 ∧ KeepsLength 2 (fullRows 2 buf) f ∧ Interleaves 2 (fullRows 2 buf) f ts ∧
      IsSchedule (fullRows 2 buf) [1, 0] ∧
      runTurns 2 ts buf = #[2, 1, 14, 13, 5] ∧ updateIn [1, 0] 2 f buf = #[2, 1, 14, 13, 5] ∧
      gatherIn [1, 0] 2 (List.foldl (· + ·) 0) buf = [3, 7] := by
  intro buf f ts
  have hf : KeepsLength 2 (fullRows 2 buf) f := fun y _ row hrow => by simpa [f] using hrow
  have hts : Interleaves 2 (fullRows 2 buf) f ts := by
    refine ⟨by decide, by simp [ts], fun y hy row _ => ?_⟩
    have hfull : fullRows 2 buf = 2 := by decide
    obtain rfl | rfl : y = 0 ∨ y = 1 := by omega
    · simp [callOf, ts, f]
    · simp [callOf, ts, f]
  have ho : IsSchedule (fullRows 2 buf) [1, 0] := by
    unfold IsSchedule
    decide
  obtain ⟨⟨out, -, hs, horder, hturns⟩, vs, -, hgather, hgatherIn⟩ :=
    rows_in_any_schedule (by decide) hf (List.foldl (· + ·) 0)
  have hout : update? .serial 2 f buf = some #[2, 1, 14, 13, 5] := by decide
  have hvs : gather? .serial 2 (List.foldl (· + ·) 0) buf = some [3, 7] := by decide
  obtain rfl := Option.some.inj ((hs .serial).symm.trans hout)
  obtain rfl := Option.some.inj ((hgather .serial).symm.trans hvs)
  exact ⟨by decide, hf, hts, ho, hturns ts hts, horder _ ho, hgatherIn _ ho⟩

end Bitplane.Rows
