import Bitplane.Region.LabelingPasses

/-! # Labeling as loops

The first two passes of labeling as loops over what they change. A grid is held while its runs are
numbered, and what was written to it stays written if a step ends early; a table of any kind is
handed one report after another while the rows are walked; and of the parents of labels nothing is
known.

* `Held.numberRuns`: the runs of the grid that is held, numbered where they stand.
* `Loop`: a loop, which may also go on for ever.
* `RowWalk.go`, `mergeRuns`: every run found by its columns, and its reports handed over.
* `Parents.find`, `Parents.root`, `Parents.join`: both walks along bare parents, and the join made
  with one of them. -/

namespace Bitplane.Region

/-! ## A grid that is held -/

open Bitplane.Held (aside) in
/-- **Every run labelled by its number in raster order**, in the grid that is held; the answer is
the number of runs. -/
def Held.numberRuns (s : Strategy) : Held Halt LabelGrid Nat := do
  let g ← get
  let counts ← aside (Rows.tryGather s g.width Checked.countRuns g.labels)
  let (offsets, runs) ← aside (counts.foldlM Checked.addCount (#[], 0))
  if runLimit ≤ runs then throw (.refused (.imageTooLarge g.width g.height))
  else do
    let numbered ← aside (Checked.updateLabels s (Checked.numberRowAt offsets) g)
    set numbered
    return runs

/-! ## Loops -/

/-- A loop: it may go on for ever, end early, or end with an answer. -/
abbrev Loop := ExceptT Halt Option

namespace Loop

/-- A step that is no loop. -/
def once {α : Type} (x : Except Halt α) : Loop α := ExceptT.mk (some x)

/-- What there must be; else the step is out of range. -/
def need {α : Type} (o : Option α) : Loop α := once (require o)

section

variable {α β : Type}

theorem once_injective {x y : Except Halt α} (h : once x = once y) : x = y := Option.some.inj h

theorem need_some_bind (a : α) (k : α → Loop β) : (need (some a) >>= k) = k a := rfl

theorem need_none_bind (k : α → Loop β) : (need none >>= k) = once (.error .outOfRange) := rfl

end

end Loop

open Loop

/-! ## Runs handed to a table

A table of any kind `E` takes reports in by `take`, which may itself be a loop. -/

section

variable {E : Type}

/-- A walk along a row, given the row above if there is one. -/
structure RowWalk (E : Type) where
  take : E → Report → Loop E
  connectivity : Connectivity
  above : Option (Array Nat)
  row : Array Nat

namespace RowWalk

/-- The column behind the run of label `v` that goes on at column `x`. -/
def stop (w : RowWalk E) (v x : Nat) : Loop Nat :=
  match w.row[x]? with
  | none => return x
  | some u => if u = v then w |>.stop v (x + 1) else return x
partial_fixpoint

/-- The runs of a stretch above joined to the run of label `l`, each once; `last` is the label
before the stretch. The answer tells whether there was one. -/
def joinAbove (w : RowWalk E) (l : Nat) : Nat → List Nat → E → Bool → Loop (E × Bool)
  | _, [], e, joined => return (e, joined)
  | last, up :: ups, e, joined =>
    if up ≠ 0 ∧ up ≠ last then do
      let e ← w.take e (.joins l up)
      w.joinAbove l up ups e true
    else w.joinAbove l up ups e joined

/-- The reports of one run handed over. -/
def hand (w : RowWalk E) (e : E) (t : Run) : Loop E := do
  let (e, joined) ← match w.above with
    | none => pure (e, false)
    | some above => do
      let window := reach w.connectivity above.size t
      let ups ← need (Checked.slice? above window.1 window.2)
      w.joinAbove t.label 0 ups e false
  if joined then return e else w.take e (.opens t.label)

/-- The runs from column `x` on. -/
def go (w : RowWalk E) (e : E) (x : Nat) : Loop E :=
  match w.row[x]? with
  | none => return e
  | some v =>
    if v = 0 then w |>.go e (x + 1)
    else do
      let stop ← w.stop v x
      let e ← w.hand e ⟨v, x, stop⟩
      w |>.go e stop
partial_fixpoint

end RowWalk

/-- The runs of row `y`. -/
def mergeRow (take : E → Report → Loop E) (c : Connectivity) (g : LabelGrid) (e : E) (y : Nat) :
    Loop E := do
  let row ← need (g.row? y)
  let above ← if y = 0 then pure none else do
    let above ← need (g.row? (y - 1))
    pure (some above.toArray)
  RowWalk.go ⟨take, c, above, row.toArray⟩ e 0

/-- **The runs of a grid from the top, each compared with those above**, and what they report handed
to a table. -/
def mergeRuns (take : E → Report → Loop E) (c : Connectivity) (g : LabelGrid) (e : E) : Loop E :=
  (List.range g.height).foldlM (mergeRow take c g) e

end

/-! ## Bare parents -/

/-- **Parents of the labels `0, 1, …`**, of which nothing is known. -/
structure Parents where
  parent : Array Nat
  deriving DecidableEq

namespace Parents

/-- Every label `0, …, n` its own parent. -/
def singletons (n : Nat) : Parents := ⟨Array.range (n + 1)⟩

/-- A label hung under another. -/
def hang (t : Parents) (l p : Nat) : Parents := ⟨t.parent.setIfInBounds l p⟩

/-- **The root of a label**, every label passed hung under its grandparent. -/
def find (t : Parents) (l : Nat) : Loop (Parents × Nat) := do
  let p ← need t.parent[l]?
  if p = l then return (t, l)
  else do
    let g ← need t.parent[p]?
    t.hang l g |>.find g
partial_fixpoint

/-- The root of a label, the parents left alone. The path is shorter than there are labels. -/
def root (t : Parents) (steps l : Nat) : Loop Nat := do
  let p ← need t.parent[l]?
  if p = l then return l
  else do
    once (ensure (steps + 1 < t.parent.size))
    t |>.root (steps + 1) p
partial_fixpoint

/-- The larger of two roots hung under the smaller. -/
def link (t : Parents) (a b : Nat) : Loop Parents :=
  if a = b then return t
  else do
    once (ensure (max a b < t.parent.size))
    return t.hang (max a b) (min a b)

/-- The sets of two labels joined. -/
def join (t : Parents) (l o : Nat) : Loop Parents := do
  let (t, a) ← t.find l
  let (t, b) ← t.find o
  t.link a b

/-- **The parents of the labels `0, …, n` after some joins.** -/
def joins (n : Nat) (js : List (Nat × Nat)) : Loop Parents :=
  js.foldlM (fun t j => t.join j.1 j.2) (singletons n)

end Parents

end Bitplane.Region
