/-! # Row-wise passes over a buffer

A buffer is cut into rows of `n` entries; a trailing part shorter than `n` is no row. A pass visits
every row once, in the order of its `Strategy`, and writes each result over the row it came from. Of
a parallel pass it is assumed that every row is visited once, and nothing else: its order is a
parameter, the `Schedule`.

* `update`: every full row `y` becomes `f y` of what it held; the trailing part stays.
* `gather`: the values of `f` on the rows, in row order whatever the order of the visits.

Both are given for an arbitrary order of visits first (`updateIn`, `gatherIn`): a visit reads and
writes its own row only, so the order does not show in the result. -/

namespace Bitplane

/-- **The order in which a parallel pass happens to take its rows**: some rows first, and then those
that are left. Nothing is known of it but that each row is taken once: see `Schedule.order_perm`,
and `Schedule.exists_order` for every such order. -/
structure Schedule where
  first : List Nat
  deriving DecidableEq, Inhabited

namespace Schedule

/-- The rows that wait, those of a list taken out first. One that does not wait is passed over. -/
def take : List Nat → List Nat → List Nat
  | [], waiting => waiting
  | y :: ys, waiting =>
    if y ∈ waiting then y :: take ys (waiting.erase y) else take ys waiting

/-- The order of `k` rows. -/
def order (s : Schedule) (k : Nat) : List Nat := take s.first (List.range k)

end Schedule

/-- How the rows of a pass are dealt out. -/
inductive Strategy
  /-- Top to bottom. -/
  | serial
  /-- To workers that take them in some order. -/
  | parallel (schedule : Schedule := ⟨[]⟩)
  deriving DecidableEq, Inhabited

namespace Strategy

/-- **The order in which a pass over `k` rows visits them.** -/
def order : Strategy → Nat → List Nat
  | serial, k => List.range k
  | parallel schedule, k => schedule.order k

/-- The strategy of a pass that names none. -/
def standard : Strategy := parallel

end Strategy

namespace Rows

variable {α β : Type}

/-- `buf` with `xs` written from entry `i` on; what lies beyond the end is dropped. -/
def overlay (buf : Array α) (i : Nat) : List α → Array α
  | [] => buf
  | x :: xs => overlay (buf.setIfInBounds i x) (i + 1) xs

@[simp] theorem size_overlay (xs : List α) : ∀ (buf : Array α) (i : Nat),
    (overlay buf i xs).size = buf.size := by
  induction xs with
  | nil => intros; rfl
  | cons x xs ih => intro buf i; simp [overlay, ih]

/-- The number of full rows. -/
def fullRows (n : Nat) (buf : Array α) : Nat := buf.size / n

/-- The entries of row `y`. -/
def rowOf (n : Nat) (buf : Array α) (y : Nat) : List α :=
  (buf.extract (n * y) (n * y + n)).toList

/-- One visit: row `y` is read, and the first `n` entries of the result are written over it. -/
def visit (n : Nat) (f : Nat → List α → List α) (buf : Array α) (y : Nat) : Array α :=
  overlay buf (n * y) ((f y (rowOf n buf y)).take n)

/-- The buffer after the visits of `order`. -/
def updateIn (order : List Nat) (n : Nat) (f : Nat → List α → List α) (buf : Array α) : Array α :=
  order.foldl (visit n f) buf

/-- **Every full row `y` replaced by `f y` of it.** -/
def update (s : Strategy) (n : Nat) (f : Nat → List α → List α) (buf : Array α) : Array α :=
  updateIn (s.order (fullRows n buf)) n f buf

/-- `update`, refused where rows would have no entries. -/
def update? (s : Strategy) (n : Nat) (f : Nat → List α → List α) (buf : Array α) :
    Option (Array α) :=
  if n = 0 then none else some (update s n f buf)

/-- The values of `f` on the rows of `order`, each put at its row's place. -/
def gatherIn (order : List Nat) (n : Nat) (f : List α → β) (buf : Array α) : List β :=
  let slots := order.foldl (fun slots y => slots.setIfInBounds y (some (f (rowOf n buf y))))
    (Array.replicate (fullRows n buf) none)
  slots.toList.filterMap id

/-- **The values of `f` on the full rows, in row order.** -/
def gather (s : Strategy) (n : Nat) (f : List α → β) (buf : Array α) : List β :=
  gatherIn (s.order (fullRows n buf)) n f buf

/-- `gather`, refused where rows would have no entries. -/
def gather? (s : Strategy) (n : Nat) (f : List α → β) (buf : Array α) : Option (List β) :=
  if n = 0 then none else some (gather s n f buf)

@[simp] theorem size_visit (n : Nat) (f : Nat → List α → List α) (buf : Array α) (y : Nat) :
    (visit n f buf y).size = buf.size := by simp [visit]

@[simp] theorem size_updateIn (order : List Nat) (n : Nat) (f : Nat → List α → List α) :
    ∀ buf : Array α, (updateIn order n f buf).size = buf.size := by
  unfold updateIn
  induction order with
  | nil => intro buf; rfl
  | cons y ys ih => intro buf; rw [List.foldl_cons, ih, size_visit]

@[simp] theorem size_update (s : Strategy) (n : Nat) (f : Nat → List α → List α) (buf : Array α) :
    (update s n f buf).size = buf.size := size_updateIn _ _ _ _

end Rows

end Bitplane
