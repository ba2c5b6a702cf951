import Bitplane.Region.Report

/-! # Forests: joins now, numbers at the end

A forest over the labels `0, …, n` holds a parent for each, never above the label itself. The *root*
of a label is where its parents end, the smallest label of its set.

* `root` follows the parents; `find` does so too and halves the path on its way.
* `join` hangs the larger of two roots under the smaller.
* `resolved` numbers the sets in the order of their roots; the set of `0` is background.

The label is the measure of both walks, as a parent is never above its child. -/

namespace Bitplane.Region

/-- **Parents of labels**, none above its child. -/
structure Forest where
  parent : Array Nat
  parent_le : ∀ (l : Nat) (h : l < parent.size), parent[l] ≤ l

namespace Forest

/-- Every label `0, …, n` a set of its own. -/
def singletons (n : Nat) : Forest where
  parent := Array.range (n + 1)
  parent_le := by intro l h; simp

/-- The number of labels, background included. -/
def size (f : Forest) : Nat := f.parent.size

/-- The parent of a label; a label outside the forest is its own. -/
def up (f : Forest) (l : Nat) : Nat := f.parent[l]?.getD l

theorem up_le (f : Forest) (l : Nat) : f.up l ≤ l := by
  unfold up
  by_cases h : l < f.parent.size
  · rw [Array.getElem?_eq_getElem h]; exact f.parent_le l h
  · rw [Array.getElem?_eq_none (by omega)]; exact Nat.le_refl l

/-- **The root of a label**: where its parents end. -/
def root (f : Forest) (l : Nat) : Nat := if f.up l = l then l else f.root (f.up l)
termination_by l
decreasing_by have := f.up_le l; omega

/-- A label hung under another that is not above it. -/
def hang (f : Forest) (l p : Nat) (h : p ≤ l) : Forest where
  parent := f.parent.setIfInBounds l p
  parent_le := by
    intro k hk
    rw [Array.getElem_setIfInBounds]
    split
    · omega
    · exact f.parent_le k (by simpa using hk)

theorem size_hang (f : Forest) (l p : Nat) (h : p ≤ l) : (f.hang l p h).size = f.size := by
  simp [hang, size]

theorem up_up_le (f : Forest) (l : Nat) : f.up (f.up l) ≤ l :=
  Nat.le_trans (f.up_le _) (f.up_le l)

/-- **The root of a label, every label passed hung under its grandparent.** -/
def find (f : Forest) (l : Nat) : Forest × Nat :=
  if f.up l = l then (f, l)
  else (f.hang l (f.up (f.up l)) (f.up_up_le l)).find (f.up (f.up l))
termination_by l
decreasing_by
  have h1 := f.up_le (f.up l)
  have h2 := f.up_le l
  omega

/-- The larger of two roots hung under the smaller. -/
def link (f : Forest) (a b : Nat) : Forest :=
  if h : a ≤ b then f.hang b a h else f.hang a b (by omega)

/-- **The sets of two labels joined.** -/
def join (f : Forest) (l o : Nat) : Forest :=
  match f.find l with
  | (f, a) =>
    match f.find o with
    | (f, b) => f.link a b

/-- A report taken in; a label that opens is a set already. -/
def take (f : Forest) : Report → Forest
  | .opens _ => f
  | .joins l o => f.join l o

/-- A report taken in; none if it joins a label outside the forest. -/
def take? (f : Forest) : Report → Option Forest
  | .opens _ => some f
  | .joins l o => if l < f.size ∧ o < f.size then some (f.join l o) else none

/-- One more label numbered: a root gets the next number, any other the number of its root. -/
def number (f : Forest) (acc : Array Nat × Nat) (l : Nat) : Array Nat × Nat :=
  match acc with
  | (table, count) =>
    if l = 0 then (table.push 0, count)
    else if f.root l = l then (table.push (count + 1), count + 1)
    else
      let n := table[f.root l]?.getD 0
      (table.push n, count)

/-- **The number of every label's set and the number of sets**, background aside. -/
def resolved (f : Forest) : Array Nat × Nat := (List.range f.size).foldl f.number (#[], 0)

end Forest

end Bitplane.Region
