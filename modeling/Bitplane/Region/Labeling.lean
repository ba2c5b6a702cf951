import Bitplane.Raster.Bits
import Bitplane.Region.Forest
import Bitplane.Region.DenseNumbering

/-! # Labeling the connected components of a picture

1. *Seed*: every run gets a label of its own, in raster order.
2. *Merge*: the reports of the runs are taken in, by a forest or by a dense numbering.
3. *Resolve*: every label is replaced by the number of its set.

The components are numbered `1, …, count` in raster order of their first run. -/

namespace Bitplane.Region

/-- How reports are taken in. -/
inductive Algorithm
  /-- By a forest, numbered at the end. -/
  | deferred
  /-- By a numbering that is dense at every moment. -/
  | eager
  deriving DecidableEq, Inhabited

/-- How a picture is labeled. -/
structure Options where
  connectivity : Connectivity
  algorithm : Algorithm
  /-- Isolated pixels are removed first. -/
  filterIsolated : Bool
  strategy : Strategy
  deriving DecidableEq

namespace Options

/-- Four neighbours, a forest, nothing removed, the standard strategy. -/
def standard : Options := ⟨.four, .deferred, false, .standard⟩

/-- The standard options with the given neighbours. -/
def of (c : Connectivity) : Options := { standard with connectivity := c }

/-- Other neighbours. -/
def withConnectivity (o : Options) (c : Connectivity) : Options := { o with connectivity := c }

/-- Another algorithm. -/
def withAlgorithm (o : Options) (a : Algorithm) : Options := { o with algorithm := a }

/-- Isolated pixels removed first, or not. -/
def withFilterIsolated (o : Options) (v : Bool) : Options := { o with filterIsolated := v }

/-- Another strategy. -/
def withStrategy (o : Options) (s : Strategy) : Options := { o with strategy := s }

end Options

/-- The number of every label's set, and of sets, once all reports over `1, …, runs` are in. -/
def Algorithm.resolve (a : Algorithm) (runs : Nat) (es : List Report) : Array Nat × Nat :=
  match a with
  | .deferred => (es.foldl Forest.take (.singletons runs)).resolved
  | .eager => (es.foldl DenseNumbering.take (.fresh runs)).resolved

/-- A labeled picture. -/
structure Labeling where
  grid : LabelGrid
  /-- The number of components. -/
  count : Nat
  deriving DecidableEq

end Bitplane.Region

namespace Bitplane.Raster

open Region

/-- The picture whose components are labeled. -/
def labelSource (o : Options) (r : Raster) : Except Region.Error Raster :=
  if o.filterIsolated then (r.filterIsolatedWith o.strategy).mapError .morphology else .ok r

/-- **The components of a picture**, labeled. -/
def label (o : Options) (r : Raster) : Except Region.Error Labeling := do
  (checkSides r.width r.height).mapError .raster
  let source ← r.labelSource o
  let (numbered, runs) ← numberRuns o.strategy source.levels
  let (table, count) := o.algorithm.resolve runs (reports o.connectivity numbered)
  return ⟨numbered.update o.strategy fun _ row => row.map fun l => table[l]?.getD 0, count⟩

/-- The number of components. -/
def countComponents (c : Connectivity) (r : Raster) : Except Region.Error Nat := do
  let l ← r.label (.of c)
  return l.count

end Bitplane.Raster
