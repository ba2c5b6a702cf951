import Bitplane.LabelGrid.Basic
import Bitplane.Region.Error

/-! # Runs: the maximal horizontal stretches of a grid

A run is a maximal stretch of set pixels in a row. `numberRuns` gives every run a label of its own,
`1, 2, …` in raster order: the runs of each row are counted, the counts summed up to the first
label of each row, and the rows numbered from there. `runsOf` reads the runs back from a row. -/

namespace Bitplane.Region

/-- One more than the greatest number of runs that a grid may have. -/
def runLimit : Nat := 0xffffffff

/-- The number of runs in a row behind a pixel labelled `before`. -/
def countRuns (before : Nat) : List Nat → Nat
  | [] => 0
  | v :: r => (if v ≠ 0 ∧ before = 0 then 1 else 0) + countRuns v r

/-- The sums of the numbers before each place, on top of `acc`. -/
def sumsBefore (acc : Nat) : List Nat → List Nat
  | [] => []
  | n :: r => acc :: sumsBefore (acc + n) r

/-- A row with its runs numbered on from `last`; `inside` tells whether a run goes on. -/
def numberRow (last : Nat) (inside : Bool) : List Nat → List Nat
  | [] => []
  | v :: r =>
    if v = 0 then 0 :: numberRow last false r
    else
      let n := if inside then last else last + 1
      n :: numberRow n true r

/-- **Every run labelled by its number in raster order**, with the number of runs. -/
def numberRuns (s : Strategy) (g : LabelGrid) : Except Error (LabelGrid × Nat) :=
  let counts := Rows.gather s g.width (countRuns 0) g.labels
  let offsets := (sumsBefore 0 counts).toArray
  let runs := counts.foldl (· + ·) 0
  if runLimit ≤ runs then .error (.imageTooLarge g.width g.height)
  else .ok (g.update s fun y row => numberRow (offsets[y]?.getD 0) false row, runs)

/-- A run: its label, its first column, and the column behind its last. -/
structure Run where
  label : Nat
  start : Nat
  stop : Nat
  deriving DecidableEq

/-- A pixel at column `x` labelled `v`, put before the runs of the columns behind it. -/
def consPixel (x v : Nat) : List Run → List Run
  | [] => [⟨v, x, x + 1⟩]
  | r :: rs =>
    if r.label = v ∧ r.start = x + 1 then { r with start := x } :: rs
    else ⟨v, x, x + 1⟩ :: r :: rs

/-- **The runs of a row** whose first column is `x`: maximal stretches of one label. -/
def runsOf (x : Nat) : List Nat → List Run
  | [] => []
  | v :: r => if v = 0 then runsOf (x + 1) r else consPixel x v (runsOf (x + 1) r)

end Bitplane.Region
