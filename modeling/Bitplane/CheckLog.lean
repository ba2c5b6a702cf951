import Bitplane.Decimal.Shortest
import Bitplane.LabelGrid.Basic
import Bitplane.Raster.Picture

/-! # Check logs: a run of checks and what failed

A log counts its checks from 1. A check that fails adds one failure, which carries the number of the
check and what was compared, and ends the success of the run; a check that passes adds nothing.

* `checkValues`: two numbers differ by no more than a tolerance.
* `checkRasters`: two rasters are equal in size, pixels and padding, looked at in this order.
* `checkLabels`: a number of components is as expected, and the largest label of the grid equals it.
* `checkFlag`: a flag is as expected.
* `make`, `makeAll`: any check, and any run of them; `close`: the verdict of a run. -/

namespace Bitplane

/-- What a run shows. -/
inductive CheckMode
  /-- Compare only. -/
  | compare
  /-- Compare, and show every picture that is checked. -/
  | display
  deriving DecidableEq, Inhabited

/-- The mode that a setting asks for: `display` in any case, and else `compare`. -/
def CheckMode.ofSetting (setting : Option String) : CheckMode :=
  if (setting.getD "").toLower = "display" then display else compare

/-- What a check found. -/
inductive Finding
  /-- Two numbers differ by more than `delta`. -/
  | values (expected actual delta : Float)
  /-- Two rasters differ in size. -/
  | sizes (expected actual : Nat × Nat)
  /-- Two rasters differ at a pixel, the first in raster order. -/
  | pixel (x y : Nat) (expected actual : Raster)
  /-- Two rasters differ in padding only. -/
  | padding (actual : Raster)
  /-- A number of components is not as expected. -/
  | count (expected actual : Nat)
  /-- The largest label of a grid is not the number of components. -/
  | labels (largest count : Nat)
  /-- A flag is not as expected. -/
  | flag (what : String) (expected actual : Bool)

/-- A finding with the number of the check that made it. -/
structure Failure where
  index : Nat
  finding : Finding

/-- The text of a failure in a run of the given name. -/
def Failure.text (name : String) (f : Failure) : String :=
  s!"Failure in {name}_reg: " ++
  match f.finding with
  | .values e a d =>
    s!"value comparison for index {f.index}\n" ++
    s!"difference = {Decimal.text (e - a).abs} but allowed delta = {Decimal.text d}\n" ++
    s!"expected = {Decimal.text e}, actual = {Decimal.text a}"
  | .sizes e a =>
    s!"image comparison for index {f.index} - dimension mismatch " ++
    s!"{e.1}x{e.2} vs {a.1}x{a.2}"
  | .pixel x y e a =>
    s!"image comparison for index {f.index} - pixel mismatch at ({x}, {y})\n" ++
    s!"expected:\n{e.numberedText}actual:\n{a.numberedText}"
  | .padding a =>
    s!"image comparison for index {f.index} - padding bits differ\n{a.bitText}"
  | .count e a => s!"label count for index {f.index}: expected {e}, got {a}"
  | .labels m n =>
    s!"label map for index {f.index} uses labels up to {m} but reports {n} components"
  | .flag w e a => s!"{w} for index {f.index}: expected {e}, got {a}"

/-- **A run of checks.** -/
structure CheckLog where
  name : String
  mode : CheckMode
  /-- The number of checks so far. -/
  index : Nat
  /-- No check has failed so far. -/
  succeeded : Bool
  /-- What failed, in order. -/
  failures : List Failure

namespace CheckLog

/-- A run without checks. -/
def start (name : String) (mode : CheckMode) : CheckLog := ⟨name, mode, 0, true, []⟩

/-- The run shows every picture. -/
def displays (l : CheckLog) : Bool := l.mode = .display

/-- The texts of the failures. -/
def texts (l : CheckLog) : List String := l.failures.map (Failure.text l.name)

/-- One more check is made. -/
def next (l : CheckLog) : CheckLog := { l with index := l.index + 1 }

/-- The check that is being made has failed. -/
def fail (l : CheckLog) (f : Finding) : CheckLog :=
  { l with succeeded := false, failures := l.failures ++ [⟨l.index, f⟩] }

/-! ## Checks

Each is counted first, and answers whether it passed, with the log that holds it. -/

/-- Two numbers differ by at most `delta`. -/
def checkValues (l : CheckLog) (expected actual delta : Float) : Bool × CheckLog :=
  let l := l.next
  if (expected - actual).abs > delta then (false, l.fail (.values expected actual delta))
  else (true, l)

/-- The first point, row by row, at which two rasters differ, read without a check: see
`stored?_isSome_of_inside` for rasters of one size. -/
def firstDifference? (a b : Raster) : Option (Nat × Nat) :=
  (List.range a.height).findSome? fun y =>
    ((List.range a.width).find? fun x => a.stored? x y != b.stored? x y).map fun x => (x, y)

/-- Two rasters are equal: in size, in every pixel, and in padding. -/
def checkRasters (l : CheckLog) (expected actual : Raster) : Bool × CheckLog :=
  let l := l.next
  if !expected.sameSize actual then (false, l.fail (.sizes expected.size actual.size))
  else
    match firstDifference? expected actual with
    | some (x, y) => (false, l.fail (.pixel x y expected actual))
    | none =>
      if expected.bytes ≠ actual.bytes then (false, l.fail (.padding actual)) else (true, l)

/-- A number of components is as expected, and the largest label of the grid equals it. -/
def checkLabels (l : CheckLog) (expected actual : Nat) (g : LabelGrid) : Bool × CheckLog :=
  let l := l.next
  if expected ≠ actual then (false, l.fail (.count expected actual))
  else if g.maxLabel ≠ actual then (false, l.fail (.labels g.maxLabel actual))
  else (true, l)

/-- A flag is as expected. -/
def checkFlag (l : CheckLog) (expected actual : Bool) (what : String) : Bool × CheckLog :=
  let l := l.next
  if expected ≠ actual then (false, l.fail (.flag what expected actual)) else (true, l)

end CheckLog

/-- **A check**, with what it compares. -/
inductive Check
  | values (expected actual delta : Float)
  | rasters (expected actual : Raster)
  | labels (expected actual : Nat) (grid : LabelGrid)
  | flag (expected actual : Bool) (what : String)

namespace CheckLog

/-! ## Runs -/

/-- A check made. -/
def make (l : CheckLog) : Check → Bool × CheckLog
  | .values e a d => l.checkValues e a d
  | .rasters e a => l.checkRasters e a
  | .labels e a g => l.checkLabels e a g
  | .flag e a w => l.checkFlag e a w

/-- **Checks made one after the other**, with their answers. -/
def makeAll (l : CheckLog) : List Check → List Bool × CheckLog
  | [] => ([], l)
  | c :: cs =>
    let made := l.make c
    let rest := made.2.makeAll cs
    (made.1 :: rest.1, rest.2)

/-- The lines that close a run: its verdict and the texts of what failed. -/
def closing (l : CheckLog) : List String :=
  if l.succeeded then [s!"SUCCESS: {l.name}_reg", ""]
  else s!"FAILURE: {l.name}_reg" :: l.texts.map ("  " ++ ·) ++ [""]

/-- **The verdict of a run**, with the lines that close it. -/
def close (l : CheckLog) : Bool × List String := (l.succeeded, l.closing)

end CheckLog

end Bitplane
