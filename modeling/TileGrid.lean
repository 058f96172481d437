import TileGrid.Number.Format
import TileGrid.Number.Basic
import TileGrid.Number.Bits
import TileGrid.Number.Decimal
import TileGrid.Number.Reading
import TileGrid.Number.Arithmetic
import TileGrid.Shape.Basic
import TileGrid.Shape.Walk
import TileGrid.Fault
import TileGrid.Element
import TileGrid.Block
import TileGrid.Masked
import TileGrid.Transfer
import TileGrid.Launch
import TileGrid.Settings
import TileGrid.Trace
import TileGrid.Host
import TileGrid.Tensor
import TileGrid.Run
import TileGrid.Script.Value
import TileGrid.Script.Program
import TileGrid.Script.Answer
import TileGrid.Script.Object
import TileGrid.Script.Lookup
import TileGrid.Script.Reference
import TileGrid.Script.View
import TileGrid.Script.Make
import TileGrid.Script.Ask
import TileGrid.Script.Change
import TileGrid.Script.ElementFn
import TileGrid.Script.Step
import TileGrid.Script.Exec
import TileGrid.Proofs.Number.Rounding
import TileGrid.Proofs.Number.Whole
import TileGrid.Proofs.Number.Exact
import TileGrid.Proofs.Number.Nearest
import TileGrid.Proofs.Shape.RowMajor
import TileGrid.Proofs.Shape.Whole
import TileGrid.Proofs.Shape.Walk
import TileGrid.Proofs.Tiling
import TileGrid.Proofs.Notes
import TileGrid.Proofs.RunFold
import TileGrid.Proofs.Partition
import TileGrid.Proofs.Element
import TileGrid.Proofs.Block
import TileGrid.Proofs.Transfer
import TileGrid.Proofs.Elementwise
import TileGrid.Proofs.StoreOrder
import TileGrid.Proofs.LoadStore
import TileGrid.Proofs.Transpose
import TileGrid.Proofs.Along
import TileGrid.Proofs.Drivers
import TileGrid.Proofs.TraceGrammar
import TileGrid.Proofs.Reports
import TileGrid.Proofs.Veil
import TileGrid.Proofs.Residue
import TileGrid.Proofs.Shape.Size
import TileGrid.Proofs.Shape.Inside
import TileGrid.Proofs.Construction
import TileGrid.Proofs.Layout
import TileGrid.Proofs.Script.Keeps
import TileGrid.Proofs.Script.Reading
import TileGrid.Proofs.Script.Making
import TileGrid.Proofs.Script.Changing
import TileGrid.Proofs.Script.Execution
import TileGrid.Proofs.Script.Representation
import TileGrid.Proofs.Script.Backdrop
import TileGrid.Proofs.Script.PlainReading
import TileGrid.Proofs.Script.PlainSteps
import TileGrid.Proofs.Script.Growth
import TileGrid.Proofs.Script.Bodies
import TileGrid.Proofs.Script.Moments
import TileGrid.Proofs.Script.Bare
import TileGrid.Proofs.Script.Blame
import TileGrid.Proofs.Script.Alike
import TileGrid.Proofs.Script.AlikePrograms
import TileGrid.Proofs.Script.Transparency
import TileGrid.Proofs.StoreOutcome
import TileGrid.Proofs.Accesses
import TileGrid.Proofs.Overlap
import TileGrid.Proofs.Compaction
import TileGrid.Proofs.Mapping
import TileGrid.Proofs.InvalidSlots
import TileGrid.Proofs.FlatViews
import TileGrid.Proofs.ExactCounts
import TileGrid.Proofs.TileBounds
import TileGrid.Proofs.TileClipping
import TileGrid.Proofs.Collecting
import TileGrid.Proofs.Number.Integer
import TileGrid.Proofs.Shape.Enumeration
import TileGrid.Proofs.Shape.Visits
import TileGrid.Proofs.Script.Walks
import TileGrid.Proofs.Addressing
import TileGrid.Proofs.Wrapping
import TileGrid.Proofs.Number.Shortest
import TileGrid.Proofs.Number.Text
import TileGrid.Proofs.Wording
