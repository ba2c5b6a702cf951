import Bitplane.Rows.Basic

/-! # What a row-wise pass leaves

* `Schedule.order_perm`, `Schedule.exists_order`: schedules are the orders in which every row is
  taken once; `Strategy.order_perm`: so are the orders of the strategies.
* `rowOf_updateIn`: after visits in any order without repetition, each row visited holds `f` of what
  it held, and every other row what it held; `getElem?_updateIn` says the same of the entries behind
  the rows visited.
* `updateIn_eq`, `gatherIn_eq`: hence the order does not show.
* `rowOf_update`, `gather_eq`: the views of the passes themselves.

Here `f` keeps the length of a full row, as in `KeepsLength`. -/

namespace Bitplane

namespace Schedule

theorem take_perm (ys waiting : List Nat) : (take ys waiting).Perm waiting := by
  induction ys generalizing waiting with
  | nil => exact .refl _
  | cons y ys ih =>
    rw [take]
    split
    next hy => exact ((ih _).cons y).trans (List.perm_cons_erase hy).symm
    next => exact ih waiting

theorem take_eq_self {order waiting : List Nat} (h : order.Perm waiting) :
    take order waiting = order := by
  induction order generalizing waiting with
  | nil => exact h.nil_eq.symm
  | cons y order ih =>
    have hy : y ∈ waiting := h.mem_iff.mp (List.mem_cons_self ..)
    rw [take, if_pos hy, ih (h.trans (List.perm_cons_erase hy)).cons_inv]

theorem order_perm (s : Schedule) (k : Nat) : (s.order k).Perm (List.range k) := take_perm ..

/-- **Every order that takes each of `k` rows once is that of a schedule.** -/
theorem exists_order {k : Nat} {order : List Nat} (h : order.Perm (List.range k)) :
    ∃ s : Schedule, s.order k = order := ⟨⟨order⟩, take_eq_self h⟩

end Schedule

namespace Strategy

theorem order_perm (s : Strategy) (k : Nat) : (s.order k).Perm (List.range k) := by
  cases s with
  | serial => exact .refl _
  | parallel schedule => exact schedule.order_perm k

theorem mem_order {s : Strategy} {k y : Nat} : y ∈ s.order k ↔ y < k := by
  rw [(s.order_perm k).mem_iff, List.mem_range]

theorem nodup_order (s : Strategy) (k : Nat) : (s.order k).Nodup :=
  (s.order_perm k).nodup_iff.mpr List.nodup_range

end Strategy

namespace Rows

variable {α β : Type}

/-! ## Writing a list over a buffer -/

theorem getElem?_overlay (xs : List α) : ∀ (buf : Array α) (i j : Nat),
    (overlay buf i xs)[j]? =
      if i ≤ j ∧ j < i + xs.length ∧ j < buf.size then xs[j - i]? else buf[j]? := by
  induction xs with
  | nil => intro buf i j; rw [overlay, if_neg (by simp; omega)]
  | cons x xs ih =>
    intro buf i j
    rw [overlay, ih, Array.size_setIfInBounds, Array.getElem?_setIfInBounds, List.length_cons]
    rcases Nat.lt_trichotomy i j with h | h | h
    · rw [if_neg (by omega : ¬ i = j), show j - i = (j - (i + 1)) + 1 by omega,
        List.getElem?_cons_succ]
      by_cases hj : j < i + (xs.length + 1) ∧ j < buf.size
      · rw [if_pos (by omega), if_pos (by omega)]
      · rw [if_neg (by omega), if_neg (by omega)]
    · subst h
      rw [if_neg (by omega), if_pos rfl]
      by_cases hj : i < buf.size
      · simp [hj]
      · simp [hj]
    · rw [if_neg (by omega), if_neg (by omega), if_neg (by omega)]

/-! ## Rows of a buffer -/

theorem getElem?_rowOf (n : Nat) (buf : Array α) (y k : Nat) :
    (rowOf n buf y)[k]? = if k < n then buf[n * y + k]? else none := by
  unfold rowOf
  rw [Array.getElem?_toList, Array.getElem?_extract]
  by_cases hk : k < n
  · rw [if_pos hk]
    by_cases hb : n * y + k < buf.size
    · rw [if_pos (by omega)]
    · rw [if_neg (by omega), Array.getElem?_eq_none (by omega)]
  · rw [if_neg hk, if_neg (by omega)]

theorem mul_add_le_size {n y : Nat} {buf : Array α} (hy : y < fullRows n buf) :
    n * y + n ≤ buf.size := by
  have h1 : n * (y + 1) ≤ n * (buf.size / n) := Nat.mul_le_mul_left n hy
  have h2 : n * (buf.size / n) ≤ buf.size := Nat.mul_div_le buf.size n
  rw [Nat.mul_add, Nat.mul_one] at h1
  omega

theorem length_rowOf {n y : Nat} {buf : Array α} (hy : y < fullRows n buf) :
    (rowOf n buf y).length = n := by
  have := mul_add_le_size hy
  unfold rowOf
  rw [Array.length_toList, Array.size_extract]
  omega

theorem rowOf_congr {n y : Nat} {a b : Array α} (h : ∀ k < n, a[n * y + k]? = b[n * y + k]?) :
    rowOf n a y = rowOf n b y := by
  apply List.ext_getElem?
  intro k
  rw [getElem?_rowOf, getElem?_rowOf]
  by_cases hk : k < n
  · rw [if_pos hk, if_pos hk, h k hk]
  · rw [if_neg hk, if_neg hk]

/-! ## Visits -/

/-- Of each of the first `k` rows the function makes a full row again. -/
def KeepsLength (n k : Nat) (f : Nat → List α → List α) : Prop :=
  ∀ y < k, ∀ row : List α, row.length = n → (f y row).length = n

theorem getElem?_visit {n : Nat} {f : Nat → List α → List α} {buf : Array α}
    (hf : KeepsLength n (fullRows n buf) f) {y : Nat} (hy : y < fullRows n buf) (j : Nat) :
    (visit n f buf y)[j]? =
      if n * y ≤ j ∧ j < n * y + n then (f y (rowOf n buf y))[j - n * y]? else buf[j]? := by
  have hl : (f y (rowOf n buf y)).length = n := hf y hy _ (length_rowOf hy)
  have hs := mul_add_le_size hy
  unfold visit
  rw [List.take_of_length_le (by omega), getElem?_overlay, hl]
  by_cases h : n * y ≤ j ∧ j < n * y + n
  · rw [if_pos h, if_pos (by omega)]
  · rw [if_neg h, if_neg (by omega)]

theorem rowOf_visit {n : Nat} {f : Nat → List α → List α} {buf : Array α}
    (hf : KeepsLength n (fullRows n buf) f) {y : Nat} (hy : y < fullRows n buf) (z : Nat) :
    rowOf n (visit n f buf y) z = if z = y then f y (rowOf n buf y) else rowOf n buf z := by
  split
  next h =>
    subst h
    apply List.ext_getElem?
    intro k
    rw [getElem?_rowOf]
    by_cases hk : k < n
    · rw [if_pos hk, getElem?_visit hf hy, if_pos (by omega), Nat.add_sub_cancel_left]
    · rw [if_neg hk, List.getElem?_eq_none (by rw [hf _ hy _ (length_rowOf hy)]; omega)]
  next h =>
    apply rowOf_congr
    intro k hk
    rw [getElem?_visit hf hy, if_neg]
    intro hc
    rcases Nat.lt_or_gt_of_ne h with h | h
    · have := Nat.mul_le_mul_left n h
      rw [Nat.succ_eq_add_one, Nat.mul_add, Nat.mul_one] at this
      omega
    · have := Nat.mul_le_mul_left n h
      rw [Nat.succ_eq_add_one, Nat.mul_add, Nat.mul_one] at this
      omega

@[simp] theorem fullRows_visit (n : Nat) (f : Nat → List α → List α) (buf : Array α) (y : Nat) :
    fullRows n (visit n f buf y) = fullRows n buf := by simp [fullRows]

/-! ## Visits in some order -/

/-- **Each row visited holds `f` of what it held, every other row what it held.** -/
theorem rowOf_updateIn {n : Nat} {f : Nat → List α → List α} (order : List Nat) :
    ∀ {buf : Array α}, KeepsLength n (fullRows n buf) f → order.Nodup →
    (∀ y ∈ order, y < fullRows n buf) → ∀ z, rowOf n (updateIn order n f buf) z =
      if z ∈ order then f z (rowOf n buf z) else rowOf n buf z := by
  unfold updateIn
  induction order with
  | nil => intro buf _ _ _ z; simp
  | cons y ys ih =>
    intro buf hf hnd hlt z
    rw [List.nodup_cons] at hnd
    have hy : y < fullRows n buf := hlt y (by simp)
    rw [List.foldl_cons, ih (by rwa [fullRows_visit]) hnd.2 (fun w hw => by
      rw [fullRows_visit]; exact hlt w (List.mem_cons_of_mem y hw)) z, rowOf_visit hf hy]
    by_cases hz : z = y
    · subst hz
      rw [if_neg hnd.1, if_pos rfl, if_pos (by simp)]
    · simp [hz]

theorem getElem?_updateIn {n : Nat} {f : Nat → List α → List α} (order : List Nat) :
    ∀ {buf : Array α}, KeepsLength n (fullRows n buf) f → (∀ y ∈ order, y < fullRows n buf) →
    ∀ {j : Nat}, (∀ y ∈ order, ¬ (n * y ≤ j ∧ j < n * y + n)) →
    (updateIn order n f buf)[j]? = buf[j]? := by
  unfold updateIn
  induction order with
  | nil => intro buf _ _ j _; rfl
  | cons y ys ih =>
    intro buf hf hlt j hj
    rw [List.foldl_cons, ih (by rwa [fullRows_visit]) (fun w hw => by
      rw [fullRows_visit]; exact hlt w (List.mem_cons_of_mem y hw))
      (fun w hw => hj w (List.mem_cons_of_mem y hw)),
      getElem?_visit hf (hlt y (by simp)), if_neg (hj y (by simp))]

theorem eq_of_rowOf {n : Nat} (hn : 0 < n) {a b : Array α}
    (hrow : ∀ y < fullRows n a, rowOf n a y = rowOf n b y)
    (hrest : ∀ j, n * fullRows n a ≤ j → a[j]? = b[j]?) : a = b := by
  apply Array.ext_getElem?
  intro j
  by_cases hj : n * fullRows n a ≤ j
  · exact hrest j hj
  · have hy : j / n < fullRows n a := by
      rw [Nat.div_lt_iff_lt_mul hn, Nat.mul_comm]
      omega
    have hk : j % n < n := Nat.mod_lt j hn
    have h := congrArg (fun r => r[j % n]?) (hrow (j / n) hy)
    simp only [getElem?_rowOf, if_pos hk, Nat.div_add_mod] at h
    exact h

/-- **The order of the visits does not show.** -/
theorem updateIn_eq {n : Nat} (hn : 0 < n) {f : Nat → List α → List α} {buf : Array α}
    (hf : KeepsLength n (fullRows n buf) f) {p q : List Nat} (hp : p.Nodup) (hq : q.Nodup)
    (hmp : ∀ y, y ∈ p ↔ y < fullRows n buf) (hmq : ∀ y, y ∈ q ↔ y < fullRows n buf) :
    updateIn p n f buf = updateIn q n f buf := by
  have hout : ∀ {o : List Nat}, (∀ y, y ∈ o ↔ y < fullRows n buf) → ∀ {j : Nat},
      n * fullRows n buf ≤ j → ∀ y ∈ o, ¬ (n * y ≤ j ∧ j < n * y + n) := by
    intro o ho j hj y hy hc
    have := Nat.mul_le_mul_left n ((ho y).mp hy)
    rw [Nat.succ_eq_add_one, Nat.mul_add, Nat.mul_one] at this
    omega
  have hfull : fullRows n (updateIn p n f buf) = fullRows n buf := by simp [fullRows]
  apply eq_of_rowOf hn
  · intro y hy
    rw [hfull] at hy
    rw [rowOf_updateIn p hf hp (fun y hy => (hmp y).mp hy),
      rowOf_updateIn q hf hq (fun y hy => (hmq y).mp hy), if_pos ((hmp y).mpr hy),
      if_pos ((hmq y).mpr hy)]
  · intro j hj
    rw [hfull] at hj
    rw [getElem?_updateIn p hf (fun y hy => (hmp y).mp hy) (hout hmp hj),
      getElem?_updateIn q hf (fun y hy => (hmq y).mp hy) (hout hmq hj)]

/-! ## Passes -/

variable {s : Strategy} {n : Nat} {f : Nat → List α → List α} {buf : Array α}

/-- **A full row of the result is `f` of the row.** -/
theorem rowOf_update (hf : KeepsLength n (fullRows n buf) f) {y : Nat} (hy : y < fullRows n buf) :
    rowOf n (update s n f buf) y = f y (rowOf n buf y) := by
  unfold update
  rw [rowOf_updateIn _ hf (s.nodup_order _) (fun _ h => Strategy.mem_order.mp h),
    if_pos (Strategy.mem_order.mpr hy)]

/-- **The strategy of a pass does not show.** -/
theorem update_eq_update (hn : 0 < n) (hf : KeepsLength n (fullRows n buf) f) (t : Strategy) :
    update s n f buf = update t n f buf :=
  updateIn_eq hn hf (s.nodup_order _) (t.nodup_order _) (fun _ => Strategy.mem_order)
    fun _ => Strategy.mem_order

/-! ## Rows of one entry -/

@[simp] theorem fullRows_one (buf : Array α) : fullRows 1 buf = buf.size := Nat.div_one _

theorem rowOf_one {a : α} {y : Nat} (h : buf[y]? = some a) : rowOf 1 buf y = [a] := by
  apply List.ext_getElem?
  intro k
  rw [getElem?_rowOf]
  cases k with
  | zero => simpa using h
  | succ k => rfl

theorem update_one (s : Strategy) (g : α → α) (buf : Array α) :
    update s 1 (fun _ row => row.map g) buf = buf.map g := by
  have hkeep : KeepsLength 1 (fullRows 1 buf) fun _ row => row.map g :=
    fun _ _ row hrow => by rw [List.length_map, hrow]
  apply eq_of_rowOf (Nat.one_pos)
  · intro y hy
    rw [fullRows_one, size_update] at hy
    have hentry : buf[y]? = some buf[y] := Array.getElem?_eq_getElem hy
    have hmapped : (buf.map g)[y]? = some (g buf[y]) := by
      rw [Array.getElem?_map, hentry]
      rfl
    rw [rowOf_update hkeep (by rwa [fullRows_one]), rowOf_one hentry, rowOf_one hmapped]
    rfl
  · intro j hj
    rw [fullRows_one, size_update] at hj
    rw [Array.getElem?_eq_none (by rw [size_update]; omega),
      Array.getElem?_eq_none (by rw [Array.size_map]; omega)]

/-! ## Gathered values -/

theorem getElem?_foldl_put (g : Nat → β) (order : List Nat) :
    ∀ (slots : Array (Option β)) (z : Nat),
    (order.foldl (fun slots y => slots.setIfInBounds y (some (g y))) slots)[z]? =
      if z ∈ order ∧ z < slots.size then some (some (g z)) else slots[z]? := by
  induction order with
  | nil => intro slots z; simp
  | cons y ys ih =>
    intro slots z
    rw [List.foldl_cons, ih, Array.size_setIfInBounds, Array.getElem?_setIfInBounds]
    by_cases hz : z = y
    · subst hz
      by_cases hs : z < slots.size
      · simp [hs]
      · simp [hs]
    · simp [hz, Ne.symm hz]

theorem gatherIn_eq {order : List Nat} {f : List α → β}
    (hmem : ∀ y, y ∈ order ↔ y < fullRows n buf) :
    gatherIn order n f buf = (List.range (fullRows n buf)).map fun y => f (rowOf n buf y) := by
  have h : (order.foldl (fun slots y => slots.setIfInBounds y (some (f (rowOf n buf y))))
      (Array.replicate (fullRows n buf) none)).toList =
      (List.range (fullRows n buf)).map fun y => some (f (rowOf n buf y)) := by
    apply List.ext_getElem?
    intro z
    rw [Array.getElem?_toList, getElem?_foldl_put (fun y => f (rowOf n buf y)),
      Array.size_replicate, List.getElem?_map, Array.getElem?_replicate]
    by_cases hz : z < fullRows n buf
    · simp [hmem, hz]
    · simp [hmem, hz]
  unfold gatherIn
  simp only [h, List.filterMap_map]
  simp

theorem gather_eq (s : Strategy) (n : Nat) (f : List α → β) (buf : Array α) :
    gather s n f buf = (List.range (fullRows n buf)).map fun y => f (rowOf n buf y) :=
  gatherIn_eq fun _ => Strategy.mem_order

end Rows

end Bitplane
