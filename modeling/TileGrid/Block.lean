import TileGrid.Element

/-!
Dense row-major arrays as plain values: a kind, a shape and the cells in order.
-/

namespace TileGrid

namespace Shape

/-- Accepts shapes whose extents are whole numbers of at least zero. -/
def checkExtents (shape : Shape) : Except Fault Unit :=
  if shape.all Number.isExtent then .ok () else .error (.extents shape)

/-- Whether a component addresses a place in a dimension of extent `d`. -/
def inExtent (i d : Number) : Bool := i.isInteger && Number.le 0 i && i.lt d

/-- The place of a coordinate in the row-major order of the box
(`NdArray.linearIndex`). -/
def position (shape : Shape) (index : Index) : Except Fault Number :=
  if index.length = shape.length then
    if allPairs inExtent index shape then
      .ok ((pairWith (· * ·) index shape.strides).foldl (· + ·) 0)
    else .error (.indexRange index shape)
  else .error (.indexRank (.ofNat index.length) shape)

end Shape

/-- A list has fewer elements than this. -/
def listLimit : Nat := 1 <<< 32

/-- What an array holds (`NdArray`). -/
structure Block where
  kind : Kind
  shape : Shape
  cells : Array Element

namespace Block

def size (b : Block) : Number := b.shape.size

/-- The cells of a fresh array of so many elements (`allocateStorage`). A size
that is not a number gives none. -/
def freshCells (kind : Kind) (size : Number) : Except Fault (Array Element) :=
  if size.isNaN then .ok #[]
  else if size.lt (.ofNat Number.safeLimit) then
    .ok (Array.replicate size.toNat kind.zero)
  else .error .tooLarge

/-- A fresh array (`zeros`). -/
def zeros (kind : Kind) (shape : Shape) : Except Fault Block := do
  shape.checkExtents
  let cells ← freshCells kind shape.size
  return ⟨kind, shape, cells⟩

/-- As `zeros`, for a kind given by name. The shape is looked at
before the name. -/
def zerosNamed (name : String) (shape : Shape) : Except Fault Block := do
  shape.checkExtents
  let kind ← Kind.named name
  zeros kind shape

/-- Writes one value to each cell of a fresh array (`full`). -/
def full (name : String) (shape : Shape) (value : Element) :
    Except Fault Block := do
  let b ← zerosNamed name shape
  let cells ← b.cells.mapM fun _ => b.kind.convert value
  return { b with cells }

/-- An array of the given values in row-major order (`ndarray`). -/
def ofValues (name : String) (values : List Element) (shape? : Option Shape) :
    Except Fault Block := do
  let b ← zerosNamed name (shape?.getD [.ofNat values.length])
  if Number.eqv (.ofNat values.length) b.size then
    let cells ← values.mapM b.kind.convert
    return { b with cells := cells.toArray }
  else throw (.valueCount (.ofNat values.length) b.shape)

/-- The whole numbers from zero up to `stop`, in row-major order (`arange`). A
64-bit integer is not rounded up. -/
def range (name : String) (stop : Number) (shape? : Option Shape) :
    Except Fault Block := do
  if stop.isWide then throw .mixedElements
  let count := Number.max 0 stop.ceil
  let b ← zerosNamed name (shape?.getD [count])
  if b.size.eqv count then
    let cells ← (List.range count.toNat).mapM fun i => do
      let e ← b.kind.ofNumber (.ofNat i)
      b.kind.convert e
    return { b with cells := cells.toArray }
  else throw (.rangeShape stop b.shape)

/-- The element at a coordinate (`NdArray.get`). -/
def get (b : Block) (index : Index) : Except Fault Element := do
  let p ← b.shape.position index
  match b.cells[p.toNat]? with
  | some e => return e
  | none => throw .beyondStorage

/-- The cell that a write goes to and what it leaves there (`NdArray.set`). The
coordinate is looked at before the value. -/
def place (b : Block) (index : Index) (value : Element) :
    Except Fault (Nat × Element) := do
  let p ← b.shape.position index
  let e ← b.kind.convert value
  if p.toNat < b.cells.size then return (p.toNat, e) else throw .beyondStorage

def set (b : Block) (index : Index) (value : Element) : Except Fault Block := do
  let (p, e) ← b.place index value
  return { b with cells := b.cells.setIfInBounds p e }

/-- The elements in row-major order (`NdArray.toArray`). The list is
made with room for as many as the size says, which has to be a length
that a list can have. -/
def toList (b : Block) : Except Fault (List Element) :=
  if b.size.lt (.ofNat listLimit) then .ok b.cells.toList
    else .error .listLength

end Block

end TileGrid
