import TileGrid.Host

/-!
Arrays and buffers that live in the host: a shape over a storage, which
other arrays may share.
-/

namespace TileGrid

/-- An array over a storage (`NdArray`). -/
structure Tensor where
  kind : Kind
  shape : Shape
  storage : Nat

/-- A tensor of which a leading box is valid (`MaskedBuffer`). -/
structure Buffer where
  values : Tensor
  valid : Shape

variable {ν : Type}

namespace Tensor

/-- The array as it stands. -/
def block (t : Tensor) (h : Host ν) : Block :=
  ⟨t.kind, t.shape, h.cells t.storage⟩

/-- Puts an array on storage of its own. -/
def allocate (b : Block) : Act ν Tensor := fun h =>
  .ok ⟨b.kind, b.shape, h.storages.size⟩ { h with
    storages := h.storages.push b.cells }

/-- An array of another shape over the same storage: the constructor of
`NdArray` with data given to it. -/
def share (t : Tensor) (shape : Shape) : Act ν Tensor := fun h =>
  match shape.checkExtents with
  | .error f => .error f h
  | .ok () =>
    let length := (h.cells t.storage).size
    if Number.eqv (.ofNat length) shape.size then
      .ok ⟨t.kind, shape, t.storage⟩ h
    else .error (.storageLength length shape) h

/-- The element at a coordinate (`NdArray.get`). -/
def get (t : Tensor) (index : Index) : Act ν Element := fun h =>
  settle ((t.block h).get index) h

/-- Writes the element at a coordinate (`NdArray.set`). -/
def set (t : Tensor) (index : Index) (value : Element) : Act ν Unit := fun h =>
  match (t.block h).place index value with
  | .ok (p, e) => .ok () (h.putCell t.storage p e)
  | .error f => .error f h

/-- Writes the first cell, if there is one. -/
def setFirst (t : Tensor) (value : Element) : Act ν Unit := fun h =>
  match t.kind.convert value with
  | .ok e => .ok () (h.putCell t.storage 0 e)
  | .error f => .error f h

/-- The elements in row-major order (`NdArray.toArray`). -/
def toList (t : Tensor) (h : Host ν) : Except Fault (List Element) :=
  (t.block h).toList

def backing (t : Tensor) : Backing (Host ν) where
  kind := t.kind
  shape := t.shape
  get := t.get
  set := t.set

end Tensor

namespace Buffer

/-- The buffer as it stands. -/
def masked (b : Buffer) (h : Host ν) : Masked := ⟨b.values.block h, b.valid⟩

/-- Marks a leading box of a tensor as valid: the constructor of
`MaskedBuffer`. -/
def make (values : Tensor) (valid : Shape) : Act ν Buffer := fun h =>
  match Masked.make (values.block h) valid with
  | .ok m => .ok ⟨values, m.valid⟩ h
  | .error f => .error f h

def allocate (m : Masked) : Act ν Buffer := do
  let values ← Tensor.allocate m.values
  return ⟨values, m.valid⟩

/-- A scratch buffer on storage of its own (`allocate`). -/
def scratch (shape : Shape) (name : String) : Act ν Buffer := do
  let m ← settle (Masked.scratch shape name)
  allocate m

/-- Reads a box into a buffer on storage of its own (`load`). -/
def load (slice : Slice (Host ν)) (shape : Shape) : Act ν Buffer := do
  let m ← Transfer.load slice shape
  allocate m

/-- Writes the valid elements of a buffer (`store`). -/
def store (slice : Slice (Host ν)) (b : Buffer) : Act ν Unit :=
  Transfer.store slice b.values.shape b.valid b.values.get

/-- The element at a coordinate, or none outside the valid box
(`MaskedBuffer.get`). -/
def get (b : Buffer) (index : Index) : Act ν (Option Element) := fun h =>
  settle ((b.masked h).get index) h

/-- Writes a slot, valid or not (`MaskedBuffer.set`). -/
def set (b : Buffer) (index : Index) (value : Element) : Act ν Unit :=
  b.values.set index value

/-- A buffer as transfers see an array. Outside the valid box it has
nothing to read. -/
def backing (b : Buffer) : Backing (Host ν) where
  kind := b.values.kind
  shape := b.values.shape
  get := fun index => do
    let e? ← b.get index
    return e?.getD .absent
  set := b.set

/-- The valid elements in row-major order (`compact`). -/
def compact (b : Buffer) : Act ν (List Element) :=
  fun h => (b.masked h).compact h

/-- A buffer on storage of its own with `fn` applied to each valid element
(`MaskedBuffer.map`). An element is read just before `fn` is applied to it. -/
def map (b : Buffer) (fn : Element → Index → Act ν Element) : Act ν Buffer := do
  let m ← Masked.ofReads b.values.kind b.values.shape b.valid b.values.get fn
  allocate m

end Buffer

end TileGrid
