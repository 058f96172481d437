import TileGrid.Script.Value
import TileGrid.Tensor

/-!
What the steps of a script answer.
-/

namespace TileGrid.Script

/-- An entry in the log of an observed array. -/
inductive Access where
  | get (index : Number)
  | set (index : Number) (value : Element)
  /-- A value put in the place of an access. -/
  | overwritten (v : Number)

structure TensorView where
  kind : Kind
  shape : Shape
  data : Except Fault (List Element)

structure BufferView where
  kind : Kind
  shape : Number
  size : Number
  valid : Shape
  data : Except Fault (List Element)

/-- An object as it stands. -/
inductive View where
  | tensor (t : TensorView)
  | buffer (b : BufferView)
  | observed (kind : Kind) (shape : Number) (log : List Access) (inner : View)
  | slice (origin : Number) (array : View)
  | context (t : Tile)
  | driver (phase : Phase) (trace : List Entry)
  | recorder (trace : List Entry)
  | snapshot (events : List Entry)
  | launch (l : Launch)

/-- The calls that an element function got, in order. -/
abbrev Calls := List (Index × Element)

inductive Answer where
  | done
  | skipped
  | value (v : Number)
  | flag (b : Bool)
  | text (s : String)
  | names (ns : List String)
  | visits (vs : List (Index × Number))
  | indices (is : List Index) (ended : Bool)
  | settings (s : Settings)
  | phase (p : Phase)
  | view (v : View)
  | mapped (v : View) (calls : Calls)
  | stored (data : List Element)
  | list (answers : List Answer)
  | tiles (ts : List (List Answer))
  | failed (f : Fault)
  | mapFailed (f : Fault) (calls : Calls)
  | runFailed (f : Fault) (ts : List (List Answer))

end TileGrid.Script
