import Bitplane.Connectivity
import Bitplane.Region.Run

/-! # Reports: which runs touch

Rows are read from the top, runs from the left. A run that touches runs of the row above reports one
`joins` for each of them, from left to right; a run that touches none reports that it `opens` a
component. `reports` lists them all. -/

namespace Bitplane.Region

/-- What a run says of the component it belongs to. -/
inductive Report
  /-- The run of this label is the first of a component. -/
  | opens (label : Nat)
  /-- The run of the first label touches that of the second. -/
  | joins (label other : Nat)
  deriving DecidableEq

namespace Report

/-- The label of the run that reports. -/
def label : Report → Nat
  | opens l => l
  | joins l _ => l

/-- The labels that a report names. -/
def labels : Report → List Nat
  | opens l => [l]
  | joins l o => [l, o]

end Report

/-- The columns of the row above where a run may be touched: first, and behind the last. -/
def reach (c : Connectivity) (width : Nat) (r : Run) : Nat × Nat :=
  match c with
  | .four => (r.start, r.stop)
  | .eight => (r.start - 1, min (r.stop + 1) width)

/-- The labels of a stretch of a row, each run once; `last` is the label before the stretch. -/
def runLabels (last : Nat) : List Nat → List Nat
  | [] => []
  | v :: r => if v ≠ 0 ∧ v ≠ last then v :: runLabels v r else runLabels v r

/-- The labels of the runs above that a run touches, from the left. -/
def touched (c : Connectivity) (above : Array Nat) (r : Run) : List Nat :=
  let w := reach c above.size r
  runLabels 0 (above.extract w.1 w.2).toList

/-- What a run reports when it touches the given labels. -/
def Run.reports (r : Run) : List Nat → List Report
  | [] => [.opens r.label]
  | us => us.map (.joins r.label)

/-- What the runs of a row report; `above` is the row above, empty for the first. -/
def rowReports (c : Connectivity) (above : Array Nat) (row : List Nat) : List Report :=
  (runsOf 0 row).flatMap fun r => r.reports (touched c above r)

/-- **All reports of a grid whose runs are numbered.** -/
def reports (c : Connectivity) (g : LabelGrid) : List Report :=
  (List.range g.height).flatMap fun y =>
    rowReports c (if y = 0 then #[] else (g.row (y - 1)).toArray) (g.row y)

end Bitplane.Region
