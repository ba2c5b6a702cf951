import Bitplane.Rows.Lemmas

/-! # Passes that may fail

A pass whose visits may fail: it ends with the first failure, in the order of the visits.

* `tryUpdate`, `tryGather`: `update` and `gather` with a row function that may fail.
* `tryUpdate_eq`, `tryGather_eq`: where no row fails they are the passes themselves. -/

namespace Bitplane

section

variable {ε α β : Type}

theorem ok_bind {a : α} {f : α → Except ε β} : (Except.ok a >>= f) = f a := rfl

theorem mapM_ok {f : α → Except ε β} {g : α → β} :
    ∀ {l : List α}, (∀ a ∈ l, f a = .ok (g a)) → l.mapM f = .ok (l.map g)
  | [], _ => rfl
  | a :: l, h => by
    rw [List.mapM_cons, h a (List.mem_cons_self ..), ok_bind,
      mapM_ok fun b hb => h b (List.mem_cons_of_mem a hb)]
    rfl

end

namespace Rows

variable {ε α β : Type}

/-- One visit that may fail. -/
def tryVisit (n : Nat) (f : Nat → List α → Except ε (List α)) (buf : Array α) (y : Nat) :
    Except ε (Array α) := do
  let row ← f y (rowOf n buf y)
  return overlay buf (n * y) (row.take n)

/-- **Every full row `y` replaced by `f y` of it**, or the first failure. -/
def tryUpdate (s : Strategy) (n : Nat) (f : Nat → List α → Except ε (List α)) (buf : Array α) :
    Except ε (Array α) :=
  (s.order (fullRows n buf)).foldlM (tryVisit n f) buf

/-- One more value put at its row's place. -/
def tryPut (n : Nat) (f : List α → Except ε β) (buf : Array α) (slots : Array (Option β))
    (y : Nat) :
    Except ε (Array (Option β)) := do
  let v ← f (rowOf n buf y)
  return slots.setIfInBounds y (some v)

/-- **The values of `f` on the full rows, in row order**, or the first failure. -/
def tryGather (s : Strategy) (n : Nat) (f : List α → Except ε β) (buf : Array α) :
    Except ε (List β) := do
  let slots ← (s.order (fullRows n buf)).foldlM (tryPut n f buf)
    (Array.replicate (fullRows n buf) none)
  return slots.toList.filterMap id

variable {n : Nat} {order : List Nat} {f : Nat → List α → Except ε (List α)}
  {g : Nat → List α → List α} {buf : Array α} {s : Strategy}

theorem size_foldlM_tryVisit : ∀ {order : List Nat} {buf out : Array α},
    order.foldlM (tryVisit n f) buf = .ok out → out.size = buf.size
  | [], _, _, h => by rw [Except.ok.inj h]
  | y :: order, buf, out, h => by
    rw [List.foldlM_cons] at h
    unfold tryVisit at h
    cases hrow : f y (rowOf n buf y) with
    | error e =>
      rw [hrow] at h
      cases h
    | ok row =>
      rw [hrow, ok_bind] at h
      exact (size_foldlM_tryVisit h).trans (size_overlay ..)

theorem size_tryUpdate {out : Array α} (h : tryUpdate s n f buf = .ok out) :
    out.size = buf.size := size_foldlM_tryVisit h

theorem tryVisit_eq {y : Nat} (h : f y (rowOf n buf y) = .ok (g y (rowOf n buf y))) :
    tryVisit n f buf y = .ok (visit n g buf y) := by
  unfold tryVisit
  rw [h]
  rfl

theorem foldlM_tryVisit (order : List Nat) : ∀ {buf : Array α}, KeepsLength n (fullRows n buf) g →
    order.Nodup → (∀ y ∈ order, y < fullRows n buf ∧
      f y (rowOf n buf y) = .ok (g y (rowOf n buf y))) →
    order.foldlM (tryVisit n f) buf = .ok (updateIn order n g buf) := by
  unfold updateIn
  induction order with
  | nil => intro buf _ _ _; rfl
  | cons y ys ih =>
    intro buf hg hnd h
    rw [List.nodup_cons] at hnd
    obtain ⟨hy, hfy⟩ := h y (List.mem_cons_self ..)
    rw [List.foldlM_cons, tryVisit_eq hfy, ok_bind, List.foldl_cons]
    refine ih (by rwa [fullRows_visit]) hnd.2 fun z hz => ?_
    -- the rows to come are still what they were
    have hzy : z ≠ y := fun hzy => hnd.1 (hzy ▸ hz)
    obtain ⟨hz', hfz⟩ := h z (List.mem_cons_of_mem y hz)
    rw [rowOf_visit hg hy, if_neg hzy, fullRows_visit]
    exact ⟨hz', hfz⟩

/-- **A pass in which no row fails is the pass itself.** -/
theorem tryUpdate_eq (hg : KeepsLength n (fullRows n buf) g)
    (h : ∀ y < fullRows n buf, f y (rowOf n buf y) = .ok (g y (rowOf n buf y))) :
    tryUpdate s n f buf = .ok (update s n g buf) :=
  foldlM_tryVisit _ hg (s.nodup_order _) fun y hy =>
    ⟨Strategy.mem_order.mp hy, h y (Strategy.mem_order.mp hy)⟩

theorem foldlM_tryPut {f : List α → Except ε β} {g : List α → β} (order : List Nat) :
    ∀ slots : Array (Option β), (∀ y ∈ order, f (rowOf n buf y) = .ok (g (rowOf n buf y))) →
    order.foldlM (tryPut n f buf) slots = .ok (order.foldl
      (fun slots y => slots.setIfInBounds y (some (g (rowOf n buf y)))) slots) := by
  induction order with
  | nil => intro slots _; rfl
  | cons y ys ih =>
    intro slots h
    have hput : tryPut n f buf slots y = .ok (slots.setIfInBounds y (some (g (rowOf n buf y)))) := by
      unfold tryPut
      rw [h y (List.mem_cons_self ..)]
      rfl
    rw [List.foldlM_cons, hput, ok_bind, List.foldl_cons]
    exact ih _ fun z hz => h z (List.mem_cons_of_mem y hz)

theorem tryGather_eq {f : List α → Except ε β} {g : List α → β}
    (h : ∀ y < fullRows n buf, f (rowOf n buf y) = .ok (g (rowOf n buf y))) :
    tryGather s n f buf = .ok (gather s n g buf) := by
  unfold tryGather gather gatherIn
  rw [foldlM_tryPut _ _ fun y hy => h y (Strategy.mem_order.mp hy)]
  rfl

end Rows

end Bitplane
