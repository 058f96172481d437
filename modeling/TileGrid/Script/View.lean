import TileGrid.Script.Reference

/-!
Objects as they stand, for answers.
-/

namespace TileGrid.Script.State

def tensorView (t : Tensor) (h : State) : TensorView :=
  ⟨t.kind, t.shape, t.toList h⟩

def bufferView (b : Buffer) (h : State) : BufferView :=
  ⟨b.values.kind, .ofList b.values.shape, b.values.shape.size, b.valid,
    b.values.toList h⟩

/-- An item as it stands, for an answer. -/
def display (i : Item) : Act Scope Number := do
  let v ← present i
  shown v

/-- The components of a list as they stand, for an answer. -/
def displayList (i : Item) : Act Scope Shape := do
  let v ← display i
  settle v.components

def displayLog : List Logged → Act Scope (List Access)
  | [] => return []
  | .access a :: rest => do
    let as ← displayLog rest
    return a :: as
  | .replaced i :: rest => do
    let v ← display i
    let as ← displayLog rest
    return .overwritten v :: as

/-- A valid box over an array that cannot list its elements. -/
def maskedView (values : Object) (valid : Shape) : Act Scope BufferView := do
  let kind ← settle values.kind
  let shape ← settle values.shape
  let shape ← display shape
  return ⟨kind, shape, values.size, valid, .error .unsupported⟩

def tileView (t : TileLists) : Act Scope Tile := do
  let id ← displayList t.id
  let offset ← displayList t.offset
  let shape ← displayList t.shape
  let nominal ← displayList t.nominal
  let domain ← displayList t.domain
  let counts ← displayList t.counts
  return { id, offset, shape, nominal, domain, counts }

def view : Object → Act Scope View
  | .tensor t => fun h => .ok (.tensor (tensorView t h)) h
  | .buffer b => fun h => .ok (.buffer (bufferView b h)) h
  | .masked values valid => .buffer <$> maskedView values valid
  | .observed log shape inner => do
    let kind ← settle inner.kind
    let shape ← display shape
    let entries ← fun h => .ok (h.caller.log log) h
    let accesses ← displayLog entries
    let array ← view inner
    return .observed kind shape accesses array
  | .slice array origin => do
    let origin ← display origin
    let seen ← view array
    return .slice origin seen
  | .context t => .context <$> tileView t
  | .driver id => fun h =>
    .ok (.driver (h.driver id).phase (h.entries (h.driver id).recorder).toList)
      h
  | .recorder id => fun h => .ok (.recorder (h.entries id).toList) h
  | .snapshot id => fun h => .ok (.snapshot (h.caller.snapshots.getD id [])) h
  | .launch l => return .launch l
  | .kernel _ => throw .unsupported
  | .nothing => throw .unsupported

end TileGrid.Script.State
