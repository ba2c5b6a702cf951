import Bitplane.Region.Report

/-! # Dense numberings: the sets numbered at every moment

A dense numbering over the labels `0, …, n` holds the number of each label's set, `0` for a label
not yet mentioned. The sets in use are numbered `1, …, count`.

* `start` gives a label the next number.
* `join` gives a new label the number of another, or folds the higher of two numbers into the lower
  and moves every number above it down by one, so that no gap stays. -/

namespace Bitplane.Region

/-- **The number of every label's set.** -/
structure DenseNumbering where
  slots : Array Nat
  /-- The number of sets. -/
  count : Nat
  /-- The largest label mentioned. -/
  used : Nat

namespace DenseNumbering

/-- No label `0, …, n` mentioned. -/
def fresh (n : Nat) : DenseNumbering := ⟨Array.replicate (n + 1) 0, 0, 0⟩

/-- The number of labels, background included. -/
def size (d : DenseNumbering) : Nat := d.slots.size

/-- The number of a label's set, `0` for a label not mentioned. -/
def numberOf (d : DenseNumbering) (l : Nat) : Nat := d.slots[l]?.getD 0

/-- The number of a label's set; none for a label outside. -/
def numberOf? (d : DenseNumbering) (l : Nat) : Option Nat := d.slots[l]?

/-- The number after `fold` has been folded into `keep`. -/
def shifted (keep fold n : Nat) : Nat :=
  if n = fold then keep else if fold < n then n - 1 else n

/-- The labels `1, …, k` with `fold` folded into `keep`. -/
def closeGap (keep fold : Nat) (slots : Array Nat) : Nat → Array Nat
  | 0 => slots
  | k + 1 => closeGap keep fold (slots.modify (k + 1) (shifted keep fold)) k

/-- Two numbers made one: the higher goes. -/
def merge (d : DenseNumbering) (a b : Nat) : DenseNumbering :=
  { d with
    slots := closeGap (min a b) (max a b) d.slots d.used
    count := d.count - 1 }

/-- **A label put into a set of its own.** -/
def start (d : DenseNumbering) (l : Nat) : DenseNumbering :=
  ⟨d.slots.setIfInBounds l (d.count + 1), d.count + 1, max d.used l⟩

/-- **The sets of two labels joined**; a label not mentioned goes into the set of the other. -/
def join (d : DenseNumbering) (l o : Nat) : DenseNumbering :=
  let target := d.numberOf o
  let current := d.numberOf l
  if current = 0 then { d with slots := d.slots.setIfInBounds l target, used := max d.used l }
  else if current = target then d
  else d.merge current target

/-- A report taken in. -/
def take (d : DenseNumbering) : Report → DenseNumbering
  | .opens l => d.start l
  | .joins l o => d.join l o

/-- A report taken in; none if it names a label outside. -/
def take? (d : DenseNumbering) (e : Report) : Option DenseNumbering :=
  if ∀ l ∈ e.labels, l < d.size then some (d.take e) else none

/-- The number of every label's set and the number of sets. -/
def resolved (d : DenseNumbering) : Array Nat × Nat := (d.slots, d.count)

end DenseNumbering

end Bitplane.Region
