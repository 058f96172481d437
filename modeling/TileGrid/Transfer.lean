import TileGrid.Masked

/-!
Bounded transfers between arrays and buffers.

An array here is whatever can be read and written by coordinate, and may do
anything to the state on the way. A transfer placed at an origin touches the
part of its box that lies inside the array, which is a leading box because
origins are never negative.
-/

namespace TileGrid

/-- An array as a transfer sees it (`BackingArray`). -/
structure Backing (σ : Type) where
  kind : Kind
  shape : Shape
  get : Index → EStateM Fault σ Element
  set : Index → Element → EStateM Fault σ Unit

/-- An array addressed from an origin (`ArraySlice`). -/
structure Slice (σ : Type) where
  array : Backing σ
  origin : Index

namespace Slice

/-- The slice at the zero origin (`asSlice`). -/
def whole {σ : Type} (array : Backing σ) : Slice σ :=
  ⟨array, array.shape.corner⟩

end Slice

namespace Transfer

/-- Accepts a transfer of a box `shape` placed at `origin` in an array of shape
`extent` (`checkTransfer`). -/
def check (extent : Shape) (origin : Index) (shape : Shape) :
    Except Fault Unit :=
  if shape.length ≠ extent.length ∨ origin.length ≠ extent.length then
    .error (.transferRank shape origin (.ofNat extent.length))
  else if !shape.all Number.isExtent then .error (.transferShape shape)
  else if !origin.all Number.isExtent then .error (.transferOrigin origin)
  else .ok ()

/-- How much of a box `shape` placed at `origin` lies inside `extent`
(`clipBox`). -/
def clip (extent : Shape) (origin : Index) (shape : Shape) : Shape :=
  let room := Shape.pairWith (· - ·) extent origin
  Shape.pairWith (fun s r => Number.max 0 (Number.min s r)) shape room

variable {σ : Type}

/-- Reads a box from the slice's origin on (`load`). -/
def load (slice : Slice σ) (shape : Shape) : EStateM Fault σ Masked := do
  settle (check slice.array.shape slice.origin shape)
  let valid := clip slice.array.shape slice.origin shape
  let fresh ← settle (Block.zeros slice.array.kind shape)
  let values ← Shape.visitAll .endless valid fresh fun out index _ => do
    let e ← slice.array.get (Shape.offset slice.origin index)
    settle (out.set index e)
  settle (Masked.make values valid)

/-- Writes the valid elements of a buffer of shape `shape`, read one by
one, from the slice's origin on (`store`). An element is read just
before it is written. -/
def store (slice : Slice σ) (shape valid : Shape)
    (read : Index → EStateM Fault σ Element) : EStateM Fault σ Unit := do
  settle (check slice.array.shape slice.origin shape)
  let writable := clip slice.array.shape slice.origin valid
  Shape.visitAll .endless writable () fun _ index _ => do
    let e ← read index
    slice.array.set (Shape.offset slice.origin index) e

end Transfer

end TileGrid
