import Bitplane.Byte.Basic
import Bitplane.Byte.Lemmas
import Bitplane.CheckLog
import Bitplane.Connectivity
import Bitplane.Decimal.Shortest
import Bitplane.Held
import Bitplane.LabelGrid.Basic
import Bitplane.LabelGrid.Lemmas
import Bitplane.Morphology.Cross
import Bitplane.Morphology.Pixelwise
import Bitplane.Morphology.Table
import Bitplane.Raster.Basic
import Bitplane.Raster.Bits
import Bitplane.Raster.Combine
import Bitplane.Raster.Error
import Bitplane.Raster.Lemmas
import Bitplane.Raster.Picture
import Bitplane.Raster.Pixels
import Bitplane.Region.Box
import Bitplane.Region.Component
import Bitplane.Region.DenseNumbering
import Bitplane.Region.Error
import Bitplane.Region.Extraction
import Bitplane.Region.Fill
import Bitplane.Region.FillLoop
import Bitplane.Region.Forest
import Bitplane.Region.ForestRoots
import Bitplane.Region.Labeling
import Bitplane.Region.LabelingLoops
import Bitplane.Region.LabelingPasses
import Bitplane.Region.Partition
import Bitplane.Region.PassTimes
import Bitplane.Region.Report
import Bitplane.Region.RowPasses
import Bitplane.Region.Run
import Bitplane.Rows.Basic
import Bitplane.Rows.Failing
import Bitplane.Rows.Lemmas
import Bitplane.Source
import Bitplane.Text.CharClass
import Bitplane.Text.Quoted
import Bitplane.Workbench
import Bitplane.Proofs.Ranks
import Bitplane.Proofs.Region.ComponentNumbers
import Bitplane.Proofs.Region.RunNumbers
import Bitplane.Proofs.Region.TouchingRuns
import Bitplane.Proofs.Region.DenseForest
import Bitplane.Proofs.Region.TiedClasses
import Bitplane.Proofs.Region.OpeningOrder
import Bitplane.Proofs.Region.RunReports
import Bitplane.Proofs.Region.LabeledComponents
import Bitplane.Proofs.Region.FloodFill
import Bitplane.Proofs.Region.FillLoop
import Bitplane.Proofs.Region.PartitionCheck
import Bitplane.Proofs.Morphology.Kernels
import Bitplane.Proofs.Morphology.Dilation
import Bitplane.Proofs.Morphology.Erosion
import Bitplane.Proofs.Morphology.IsolatedPixels
import Bitplane.Proofs.Region.CellBoxes
import Bitplane.Proofs.Region.GridBoxes
import Bitplane.Proofs.Region.ExtractionPasses
import Bitplane.Proofs.Region.CutOut
import Bitplane.Proofs.Region.ComponentMasks
import Bitplane.Proofs.Region.CutComponents
import Bitplane.Proofs.Region.CheckedTables
import Bitplane.Proofs.Region.RowPasses
import Bitplane.Proofs.Region.CheckedRows
import Bitplane.Proofs.Region.LabelingOutcomes
import Bitplane.Proofs.Region.FilteredComponents
import Bitplane.Proofs.Raster.PixelSets
import Bitplane.Proofs.Raster.DrawnPixels
import Bitplane.Proofs.Raster.RoundTrip
import Bitplane.Proofs.Raster.CleanResults
import Bitplane.Proofs.WorkbenchRuns
import Bitplane.Proofs.CheckLog.Findings
import Bitplane.Proofs.CheckLog.LabelRange
import Bitplane.Proofs.CheckLog.Verdicts
import Bitplane.Proofs.CheckLog.RasterDifferences
import Bitplane.Proofs.Morphology.Crosses
import Bitplane.Proofs.Morphology.OpeningClosing
import Bitplane.Proofs.Region.BridgedCorners
import Bitplane.Proofs.Morphology.CrossRules
import Bitplane.Proofs.Morphology.Padding
import Bitplane.Proofs.Morphology.Duality
import Bitplane.Proofs.Morphology.Nesting
import Bitplane.Proofs.Morphology.Residues
import Bitplane.Proofs.Raster.PictureRows
import Bitplane.Proofs.Raster.DrawnRows
import Bitplane.Proofs.Raster.BitTexts
import Bitplane.Proofs.Raster.NumberedRows
import Bitplane.Proofs.Raster.PixelWrites
import Bitplane.Proofs.Region.LabelSizes
import Bitplane.Proofs.Region.LabelRenaming
import Bitplane.Proofs.Region.Checkerboard
import Bitplane.Proofs.LabelGrid.HexLines
import Bitplane.Proofs.Rows.Schedules
import Bitplane.Proofs.Rows.Strategies
import Bitplane.Proofs.Region.MaximalRuns
import Bitplane.Proofs.Region.RunWalk
import Bitplane.Proofs.Region.ParentLoops
