import TileGrid.Script.Reference

/-!
What the steps that make an object do.
-/

namespace TileGrid.Script

open State

/-- A fresh array of the given contents. -/
def newTensor (b : Except Fault Block) : Act Scope Object := do
  let b ← settle b
  let t ← Tensor.allocate b
  return .tensor t

/-- An array of the parts of a value. What has no parts has no length to go by,
and nothing at all is refused. -/
def arrayOf (kind : String) (values : Number) (shape? : Option Shape) :
    Except Fault Block := do
  match values.parts? with
  | some vs => Block.ofValues kind (vs.map Element.ofNumber) shape?
  | none =>
    if values = .absent then throw .unsupported
    let b ← Block.zerosNamed kind (shape?.getD [.absent])
    throw (.valueCount .absent b.shape)

/-- An array of another shape over the storage of an array. Where there is no
storage to share, it is a fresh one. -/
def shareOf (o : Object) (shape : Shape) : Act Scope Object :=
  match o, o.kind with
  | .tensor t, _ => .tensor <$> t.share shape
  | .nothing, _ => throw .unsupported
  | _, .ok kind => newTensor (Block.zeros kind shape)
  | _, .error _ => do
    settle shape.checkExtents
    throw .unknownKind

/-- An array that observes another, with the shape given or else the same. -/
def observeOf (o : Object) (shape : Item) : Act Scope Object := do
  let own ← settle o.shape
  let shape := match shape with
    | .value (.stray .absent) => own
    | s => s
  fun h => .ok (.observed h.caller.logs.size shape o)
    (modifyScope h fun s => { s with logs := s.logs.push #[] })

/-- Marks a leading box of an array as valid. -/
def maskOf (values : Object) (valid : Shape) : Act Scope Object :=
  match values with
  | .tensor t => .buffer <$> Buffer.make t valid
  | o => do
    let shape ← settle o.shape
    let shape ← present shape
    if (shape.parts?.map valid.fitsIn).getD false then return .masked o valid
    else do
      let shape ← settle shape.components
      throw (.validBox valid shape)

/-- The array that a buffer marks. -/
def valuesIn : Object → Act Scope Object
  | .buffer b => return .tensor b.values
  | .masked values _ => return values
  | _ => throw .unsupported

def Make.perform : Make → Act Scope Object
  | zeros kind shape => do
    let shape ← evalShape shape
    newTensor (Block.zerosNamed kind shape)
  | full kind shape value => do
    let shape ← eval shape
    let value ← eval value
    let shape ← settle shape.toShape
    newTensor (Block.full kind shape (.ofNumber value))
  | range kind stop shape? => do
    let stop ← eval stop
    let shape ← eval? shape?
    let shape? ← settle shape.toShape?
    newTensor (Block.range kind stop shape?)
  | ofValues kind values shape? => do
    let values ← eval values
    let shape ← eval? shape?
    let shape? ← settle shape.toShape?
    newTensor (arrayOf kind values shape?)
  | share of shape => do
    let o ← find of
    let shape ← evalList shape
    shareOf o shape
  | sliceAt of origin => resolve (.at of origin)
  | slice target => do
    let o ← resolve target
    toSlice o
  | existing of => find of
  | observe of shape? => do
    let o ← find of
    match shape? with
    | some t => do
      let shape ← evalItem t
      observeOf o shape
    | none => observeOf o (.value .absent)
  | load context? target shape => do
    let target ← resolve target
    let shape ← eval shape
    let context? ← findIf context?
    needTile context?
    let shape ← settle shape.toShape
    let slice ← sliceFor target shape
    let b ← Buffer.load slice shape
    return .buffer b
  | scratch context? kind shape => do
    let shape ← eval shape
    let context? ← findIf context?
    needTile context?
    let shape ← settle shape.toShape
    let b ← Buffer.scratch shape kind
    return .buffer b
  | valuesOf of => do
    let o ← find of
    valuesIn o
  | masked values valid => do
    let o ← find values
    let valid ← evalList valid
    maskOf o valid
  | context id offset shape nominal domain counts => do
    let id ← evalFixed id
    let offset ← evalFixed offset
    let shape ← evalFixed shape
    let nominal ← evalFixed nominal
    let domain ← evalFixed domain
    let counts ← evalFixed counts
    return .context { id, offset, shape, nominal, domain, counts }
  | driver options => do
    let id ← Host.newDriver options
    return .driver id
  | recorder => do
    let id ← Host.newRecorder
    return .recorder id
  | snapshot of => do
    let recorder ← findRecorder of
    fun h => .ok (.snapshot h.caller.snapshots.size)
      (modifyScope h fun s =>
        { s with snapshots := s.snapshots.push (h.entries recorder).toList })
  | group domain tile => do
    let domain ← eval domain
    let tile ← eval tile
    let domain ← settle domain.toShape
    let tile ← settle tile.toShape
    let l : Launch := ⟨domain, tile⟩
    settle l.check
    return .launch l

end TileGrid.Script
