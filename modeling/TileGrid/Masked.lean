import TileGrid.Block
import TileGrid.Shape.Walk

/-!
Buffers of which a leading box is valid. Coordinates outside the box hold values
too, but no transfer shows them.
-/

namespace TileGrid

/-- A fixed result as an action. -/
def settle {ε σ α : Type} : Except ε α → EStateM ε σ α
  | .ok a => pure a
  | .error e => throw e

namespace Shape

/-- Whether a leading box fits in a box of the given shape. -/
def fitsIn (valid shape : Shape) : Bool :=
  valid.length == shape.length && allPairs (fun v d => v.isExtent && !d.lt v)
    valid shape

/-- Whether a coordinate lies in the leading box `valid`
(`MaskedBuffer.isValid`). -/
def covers (valid : Shape) (index : Index) : Bool :=
  index.length == valid.length && allPairs inExtent index valid

/-- Puts an element to the end of a list that has room for one more. -/
def pushListed (out : Array Element) (e : Element) :
    Except Fault (Array Element) :=
  if out.size + 1 < listLimit then .ok (out.push e) else .error .listLength

/-- The elements of a box, read one by one in row-major order into one list: the
loop of `compact`. -/
def readAll {σ : Type} (box : Shape) (read : Index → EStateM Fault σ Element) :
    EStateM Fault σ (List Element) := do
  let out ← visitAll .endless box #[] fun (out : Array Element) index _ => do
    let e ← read index
    settle (pushListed out e)
  return out.toList

end Shape

/-- An array of which a leading box is valid (`MaskedBuffer`). -/
structure Masked where
  values : Block
  /-- The extents of the valid leading box. -/
  valid : Shape

namespace Masked

/-- Accepts a valid box that fits in the array. -/
def make (values : Block) (valid : Shape) : Except Fault Masked :=
  if valid.fitsIn values.shape then .ok ⟨values, valid⟩
  else .error (.validBox valid values.shape)

/-- A scratch buffer, valid throughout (`allocate`). -/
def scratch (shape : Shape) (name : String) : Except Fault Masked := do
  if shape.isEmpty then throw .scratchRank
  let values ← Block.zerosNamed name shape
  make values shape

/-- The element at a coordinate, or none outside the valid box
(`MaskedBuffer.get`). -/
def get (m : Masked) (index : Index) : Except Fault (Option Element) :=
  if m.valid.covers index then some <$> m.values.get index else .ok none

/-- A fresh buffer with `fn` applied to each valid element, read one by one in
row-major order, and zero elsewhere (`MaskedBuffer.map`). -/
def ofReads {σ : Type} (kind : Kind) (shape valid : Shape)
    (read : Index → EStateM Fault σ Element)
    (fn : Element → Index → EStateM Fault σ Element) :
    EStateM Fault σ Masked := do
  let fresh ← settle (Block.zeros kind shape)
  let values ← Shape.visitAll .endless valid fresh fun out index _ => do
    let e ← read index
    let r ← fn e index
    settle (out.set index r)
  settle (make values valid)

/-- The valid elements in row-major order (`compact`). -/
def compact {σ : Type} (m : Masked) : EStateM Fault σ (List Element) :=
  m.valid.readAll fun index => settle (m.values.get index)

end Masked

end TileGrid
