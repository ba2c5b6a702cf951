import Bitplane.Region.RowPasses

/-! # Labeling in words

How the components are labelled in words of 8, 32 and 64 bits, with all that a step relies on: what
is read or written must be there, a number must fit its word, a number taken from another must not
be the larger, and what the step asserts must hold. If not, the step is out of range.

* `Checked.numberRuns`: the runs of the seed numbered.
* `Checked.reports`: the runs read back, and what they touch.
* `Checked.resolveForest`, `Checked.resolveDense`: both tables, from their first report to the
  numbers.
* `Raster.labelChecked`, `Raster.componentsChecked`: the passes in turn. -/

namespace Bitplane

namespace Region

/-- A number that fits a word. -/
def Word.fit? (limit a : Nat) : Option Nat := if a < limit then some a else none

/-- What a step asserts. -/
def ensure (p : Prop) [Decidable p] : Except Halt Unit := if p then .ok () else .error .outOfRange

namespace Checked

/-- The picture whose components are labeled. -/
def source (o : Options) (r : Raster) : Except Halt Raster :=
  if o.filterIsolated then filter o.strategy r else .ok r

/-! ## Runs -/

/-- A run starts at column `x` of the row, labelled `v`. -/
def startsRun (row : Array Nat) (x v : Nat) : Except Halt Bool :=
  if v = 0 then .ok false
  else if x = 0 then .ok true
  else do
    let before ← require row[x - 1]?
    return before = 0

/-- One more pixel of a row looked at: its label and its column. -/
def countPixel (row : Array Nat) (n : Nat) (vx : Nat × Nat) : Except Halt Nat := do
  let starts ← startsRun row vx.2 vx.1
  if starts then require (Word.add? longLimit n 1) else return n

/-- The number of runs in a row. -/
def countRuns (row : List Nat) : Except Halt Nat := row.zipIdx.foldlM (countPixel row.toArray) 0

/-- The offset of one more row, and the runs up to its end. -/
def addCount (acc : Array Nat × Nat) (n : Nat) : Except Halt (Array Nat × Nat) := do
  let total ← require (Word.add? longLimit acc.2 n)
  return (acc.1.push acc.2, total)

/-- A row with its runs numbered on from `last`; `inside` tells whether a run goes on. -/
def numberRow (last : Nat) (inside : Bool) : List Nat → Except Halt (List Nat)
  | [] => .ok []
  | v :: row =>
    if v = 0 then do
      let rest ← numberRow last false row
      return 0 :: rest
    else do
      let n ← if inside then .ok last else require (Word.add? wordLimit last 1)
      let rest ← numberRow n true row
      return n :: rest

/-- Row `y` numbered on from its offset, which is cut to 32 bits. -/
def numberRowAt (offsets : Array Nat) (y : Nat) (row : List Nat) : Except Halt (List Nat) := do
  let offset ← require offsets[y]?
  let last ← require (Word.fit? wordLimit offset)
  numberRow last false row

/-- **Every run labelled by its number in raster order**, with the number of runs. -/
def numberRuns (s : Strategy) (g : LabelGrid) : Except Halt (LabelGrid × Nat) := do
  let counts ← Rows.tryGather s g.width countRuns g.labels
  let (offsets, runs) ← counts.foldlM addCount (#[], 0)
  if runLimit ≤ runs then .error (.refused (.imageTooLarge g.width g.height))
  else do
    let numbered ← updateLabels s (numberRowAt offsets) g
    return (numbered, runs)

/-! ## Reports -/

/-- The entries of a buffer from one place up to another. -/
def slice? (buf : Array Nat) (lo hi : Nat) : Option (List Nat) :=
  if lo ≤ hi ∧ hi ≤ buf.size then some (buf.extract lo hi).toList else none

/-- What a run reports, given the row above if there is one. -/
def runReports (c : Connectivity) (above : Option (Array Nat)) (r : Run) :
    Except Halt (List Report) :=
  match above with
  | none => .ok (r.reports [])
  | some above => do
    let w := reach c above.size r
    let stretch ← require (slice? above w.1 w.2)
    return r.reports (runLabels 0 stretch)

/-- What the runs of row `y` report. -/
def rowReports (c : Connectivity) (g : LabelGrid) (y : Nat) : Except Halt (List Report) := do
  let row ← require (g.row? y)
  let above ← if y = 0 then .ok none else do
    let above ← require (g.row? (y - 1))
    .ok (some above.toArray)
  let reports ← (runsOf 0 row).mapM (runReports c above)
  return reports.flatten

/-- **All reports of a grid whose runs are numbered.** -/
def reports (c : Connectivity) (g : LabelGrid) : Except Halt (List Report) := do
  let rows ← (List.range g.height).mapM (rowReports c g)
  return rows.flatten

/-! ## The forest -/

theorem le_of_parent {f : Forest} {l p : Nat} (h : f.parent[l]? = some p) : p ≤ l := by
  obtain ⟨hl, rfl⟩ := Array.getElem?_eq_some_iff.mp h
  exact f.parent_le l hl

/-- The root of a label, every label passed hung under its grandparent. -/
def find (f : Forest) (l : Nat) : Except Halt (Forest × Nat) :=
  match hp : f.parent[l]? with
  | none => .error .outOfRange
  | some p =>
    if p = l then .ok (f, l)
    else
      match hg : f.parent[p]? with
      | none => .error .outOfRange
      | some g => find (f.hang l g (Nat.le_trans (le_of_parent hg) (le_of_parent hp))) g
termination_by l
decreasing_by
  have h1 := le_of_parent hp
  have h2 := le_of_parent hg
  omega

/-- The sets of two labels joined. -/
def join (f : Forest) (l o : Nat) : Except Halt Forest := do
  let (f, a) ← find f l
  let (f, b) ← find f o
  if a = b then return f
  else do
    ensure (max a b < f.size)
    return f.link a b

/-- A report taken in. A label that opens must be a set of its own. -/
def takeForest (f : Forest) : Report → Except Halt Forest
  | .opens l => do
    let p ← require f.parent[l]?
    ensure (p = l)
    return f
  | .joins l o => join f l o

/-- The root of a label, its path shorter than the forest has labels. -/
def root (f : Forest) (steps l : Nat) : Except Halt Nat :=
  match h : f.parent[l]? with
  | none => .error .outOfRange
  | some p =>
    if p = l then .ok l
    else if steps + 1 < f.size then root f (steps + 1) p
    else .error .outOfRange
termination_by l
decreasing_by
  have := le_of_parent h
  omega

/-- One more label numbered, given all roots. The root of another label is below it. -/
def numberLabel (roots : Array Nat) (acc : Array Nat × Nat) (l : Nat) :
    Except Halt (Array Nat × Nat) :=
  if l = 0 then .ok (acc.1.push 0, acc.2)
  else do
    let root ← require roots[l]?
    if root = l then do
      let n ← require (Word.add? wordLimit acc.2 1)
      return (acc.1.push n, n)
    else do
      ensure (root < l)
      let n ← require acc.1[root]?
      return (acc.1.push n, acc.2)

/-- The root of the label that is all of a row. -/
def rootOf (f : Forest) (row : List Nat) : Except Halt Nat := do
  let l ← require row[0]?
  root f 0 l

/-- The number of every label's set and the number of sets. The labels are counted in a word, and
their roots looked up as the rows of a pass are visited: each once, in the order of the strategy. -/
def numberForest (s : Strategy) (f : Forest) : Except Halt (Array Nat × Nat) := do
  let n ← require (Word.fit? wordLimit f.size)
  let roots ← Rows.tryGather s 1 (rootOf f) (Array.range n)
  (List.range roots.length).foldlM (numberLabel roots.toArray) (#[], 0)

/-- **The reports taken in by a forest**, numbered at the end. -/
def resolveForest (s : Strategy) (runs : Nat) (es : List Report) :
    Except Halt (Array Nat × Nat) := do
  let f ← es.foldlM takeForest (.singletons runs)
  numberForest s f

/-! ## The dense numbering -/

/-- A label put into a set of its own. It must be in none. -/
def start (d : DenseNumbering) (l : Nat) : Except Halt DenseNumbering := do
  let v ← require d.slots[l]?
  ensure (v = 0)
  let n ← require (Word.add? wordLimit d.count 1)
  return ⟨d.slots.setIfInBounds l n, n, max d.used l⟩

/-- The number after `fold` has been folded into `keep`. -/
def shifted (keep fold n : Nat) : Except Halt Nat :=
  if n = fold then .ok keep else if fold < n then require (Word.sub? n 1) else .ok n

/-- The least number of slots that are shared out among workers. -/
def scanThreshold : Nat := 0x4000

/-- The slots of the labels in use with `fold` folded into `keep`, each on its own. Many of them are
visited as the rows of a pass are, each once, in the order of the strategy; a few from the
first on. -/
def closeGap (s : Strategy) (keep fold : Nat) (slots : Array Nat) : Except Halt (Array Nat) :=
  Rows.tryUpdate (if scanThreshold ≤ slots.size then s else .serial) 1
    (fun _ slot => slot.mapM (shifted keep fold)) slots

/-- Two numbers made one: the higher goes. The labels in use are a stretch of the table. -/
def merge (s : Strategy) (d : DenseNumbering) (a b : Nat) : Except Halt DenseNumbering := do
  let inUse ← require (slice? d.slots 1 (d.used + 1))
  let closed ← closeGap s (min a b) (max a b) inUse.toArray
  let count ← require (Word.sub? d.count 1)
  return { d with slots := Rows.overlay d.slots 1 closed.toList, count }

/-- The sets of two labels joined. The second must be in one. -/
def joinDense (s : Strategy) (d : DenseNumbering) (l o : Nat) : Except Halt DenseNumbering := do
  let target ← require d.slots[o]?
  ensure (target ≠ 0)
  let current ← require d.slots[l]?
  if current = 0 then
    return { d with slots := d.slots.setIfInBounds l target, used := max d.used l }
  else if current = target then return d
  else merge s d current target

/-- A report taken in. -/
def takeDense (s : Strategy) (d : DenseNumbering) : Report → Except Halt DenseNumbering
  | .opens l => start d l
  | .joins l o => joinDense s d l o

/-- **The reports taken in by a dense numbering.** -/
def resolveDense (s : Strategy) (runs : Nat) (es : List Report) :
    Except Halt (Array Nat × Nat) := do
  let d ← es.foldlM (takeDense s) (.fresh runs)
  return d.resolved

/-! ## Labels -/

/-- The number of every label's set and of sets. -/
def resolve (s : Strategy) (a : Algorithm) (runs : Nat) (es : List Report) :
    Except Halt (Array Nat × Nat) :=
  match a with
  | .deferred => resolveForest s runs es
  | .eager => resolveDense s runs es

/-- The labels of a row looked up. -/
def lookUp (table : Array Nat) (row : List Nat) : Except Halt (List Nat) :=
  row.mapM fun l => require table[l]?

end Checked

end Region

namespace Raster

open Region

/-- **The components of a picture, labeled in words.** -/
def labelChecked (o : Options) (r : Raster) : Except Halt Labeling := do
  (checkSides r.width r.height).mapError fun e => .refused (.raster e)
  let source ← Checked.source o r
  let seed ← Checked.levels source
  let (numbered, runs) ← Checked.numberRuns o.strategy seed
  let reports ← Checked.reports o.connectivity numbered
  let (table, count) ← Checked.resolve o.strategy o.algorithm runs reports
  let grid ← Checked.updateLabels o.strategy (fun _ row => Checked.lookUp table row) numbered
  return ⟨grid, count⟩

/-- **The components of a picture, labeled and cut out in words.** -/
def componentsChecked (o : Options) (r : Raster) : Except Halt (List Box) := do
  let l ← r.labelChecked o
  l.grid.extract l.count

end Raster

end Bitplane
