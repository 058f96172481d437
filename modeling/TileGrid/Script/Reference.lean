import TileGrid.Script.Lookup

/-!
Arrays by reference: whatever can be read and written by coordinate, slices of
it, and the targets of transfers.
-/

namespace TileGrid.Script

/-- The list that an array shows as its shape. -/
def Object.shape : Object → Except Fault Item
  | tensor t => .ok (.value (.ofList t.shape))
  | buffer b => .ok (.value (.ofList b.values.shape))
  | masked values _ => values.shape
  | observed _ shape _ => .ok shape
  | _ => .error .unsupported

def Object.kind : Object → Except Fault Kind
  | tensor t => .ok t.kind
  | buffer b => .ok b.values.kind
  | masked values _ => values.kind
  | observed _ _ inner => inner.kind
  | _ => .error .unsupported

/-- How many elements an array says it has. One that is observed
does not say. -/
def Object.size : Object → Number
  | tensor t => t.shape.size
  | buffer b => b.values.shape.size
  | masked values _ => values.size
  | _ => .absent

namespace State

/-- Numbers and 64-bit integers do not mix in arithmetic. -/
def needNumbers (s : Shape) : Act Scope Unit :=
  if s.any Number.isWide then throw .mixedElements else return ()

/-- The extents that an array is addressed in. What has no parts has none. -/
def extents (shape : Item) : Act Scope Shape := do
  let v ← present shape
  return v.parts?.getD []

/-- Notes an access to an observed array. -/
def note (log : Nat) (a : Access) : Act Scope Unit :=
  adjust (·.modifyLog log (·.push (.access a)))

def noteGet (log : Nat) (index : Number) : Act Scope Unit := do
  let index ← shown index
  note log (.get index)

def noteSet (log : Nat) (index : Number) (value : Element) :
    Act Scope Unit := do
  let index ← shown index
  let _ ← shown value.toNumber
  note log (.set index value)

/-- An array as transfers see it. What is outside a valid box reads as nothing,
and an access that is observed is noted before it is passed on. -/
def backing : Object → Act Scope (Backing State)
  | .tensor t => return t.backing
  | .buffer b => return b.backing
  | .masked values valid => do
    let array ← backing values
    return { array with
      get := fun index => if valid.covers index then array.get index
        else return .absent }
  | .observed log shape inner => do
    let array ← backing inner
    let shape ← extents shape
    return {
      kind := array.kind
      shape
      get := fun index => do
        noteGet log (.ofList index)
        array.get index
      set := fun index value => do
        noteSet log (.ofList index) value
        array.set index value }
  | _ => throw .unsupported

/-! ## Slices -/

/-- A new list of the components of an origin. A text stays as it is. -/
def originOf : Item → Act Scope Item
  | .value (.stray (.joined text)) => return .value (.stray (.joined text))
  | i => do
    let is ← shapeItemsOf i
    newList is false

/-- The object that a target names. -/
def resolve : Target → Act Scope Object
  | .named name => find name
  | .at name origin => do
    let o ← find name
    let origin ← evalItem origin
    match o with
    | .tensor t => do
      let origin ← originOf origin
      return .slice (.tensor t) origin
    | _ => throw .unsupported
  | .from name origin => do
    let o ← find name
    let origin ← evalItem origin
    return .slice o origin

/-- The origin of a whole array: a zero for each extent, and one for a shape
that has no parts. -/
def zeroOrigin (shape : Item) : Act Scope Item := do
  let v ← present shape
  let s := v.parts?.getD [.absent]
  newList (s.corner.map .value) false

/-- A slice as it is, and an array as the slice of it at the zero origin. -/
def toSlice : Object → Act Scope Object
  | .slice array origin => return .slice array origin
  | o => do
    let shape ← settle o.shape
    let origin ← zeroOrigin shape
    return .slice o origin

/-- What is the matter with an origin that is no list: a box of the rank of both
is looked at first. -/
def originFault (shape origin : Number) (box : Shape) : Fault :=
  if origin.length = shape.length ∧ shape.length = .ofNat box.length ∧
      !box.all Number.isExtent then .transferShape box
  else .unsupported

/-- The slice that a box is moved to or from, checked for the box. -/
def sliceFor (target : Object) (box : Shape) : Act Scope (Slice State) := do
  match ← toSlice target with
  | .slice o start => do
    let shape ← settle o.shape
    let shape ← present shape
    let start ← present start
    match start.components, shape.parts? with
    | .error _, _ => throw (originFault shape start box)
    | .ok origin, none => throw (.transferRank box origin .absent)
    | .ok origin, some _ => do
      let array ← backing o
      settle (Transfer.check array.shape origin box)
      needNumbers array.shape
      return ⟨array, origin⟩
  | _ => throw .unsupported

/-! ## Single elements -/

/-- What is given as a coordinate in a box of the given rank. Only a list can be
one: anything else is taken for one of another rank, but for a text of this rank
and nothing at all, which are refused. -/
def coordinate? (rank : Nat) : Number → Except Fault (Option Index)
  | .stray (.list cs) => .ok (some cs.toList)
  | .stray .absent => .error .unsupported
  | v => if v.length = .ofNat rank then .error .unsupported else .ok none

/-- Whether a valid box covers what is given as a coordinate. -/
def coveredBy (valid : Shape) (index : Number) : Except Fault Bool := do
  let index? ← coordinate? valid.length index
  return (index?.map valid.covers).getD false

def readAt : Object → Number → Act Scope Element
  | .tensor t, index => do
    match ← settle (coordinate? t.shape.length index) with
    | some index => t.get index
    | none => throw (.indexRank index.length t.shape)
  | .buffer b, index => do
    match ← settle (coordinate? b.valid.length index) with
    | some index => b.backing.get index
    | none => return .absent
  | .masked values valid, index => do
    if ← settle (coveredBy valid index) then readAt values index
      else return .absent
  | .observed log _ inner, index => do
    noteGet log index
    readAt inner index
  | _, _ => throw .unsupported

def writeAt : Object → Number → Element → Act Scope Unit
  | .tensor t, index, value => do
    match ← settle (coordinate? t.shape.length index) with
    | some index => t.set index value
    | none => throw (.indexRank index.length t.shape)
  | .buffer b, index, value => do
    match ← settle (coordinate? b.values.shape.length index) with
    | some index => b.set index value
    | none => throw (.indexRank index.length b.values.shape)
  | .masked values _, index, value => writeAt values index value
  | .observed log _ inner, index, value => do
    noteSet log index value
    writeAt inner index value
  | _, _, _ => throw .unsupported

end State

end TileGrid.Script
