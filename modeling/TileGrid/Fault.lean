import TileGrid.Shape.Basic

/-!
What can go wrong, by cause, and what is reported of each cause. The
faults that the machine raises by itself are worded by the machine: that
wording is a parameter.
-/

namespace TileGrid

/-- The sort of a fault, as a caller tells faults apart. The first four are
`InvalidShapeError`, `OutOfRangeAccessError`, `GridBusyError` and
`AsyncTileBodyError`. -/
inductive FaultClass where
  | shape
  | access
  | busy
  | deferred
  | failure
  | thrown
  | unbound
  | wrongType
  | outOfBounds
  | unreadable
  deriving DecidableEq

/-- A value that is thrown and is no error. -/
inductive Thrown where
  | null
  | string (s : String)
  | value (v : Number)

/-- Its form as text. -/
def Thrown.text : Thrown → String
  | null => "null"
  | string s => s
  | value v => v.text

inductive Fault where
  /-- An extent is not a whole number of at least zero. -/
  | extents (shape : Shape)
  /-- A shared storage has another length than its new shape asks for. -/
  | storageLength (length : Nat) (shape : Shape)
  | valueCount (count : Number) (shape : Shape)
  /-- A range of numbers up to `stop` has another length than its
  shape asks for. -/
  | rangeShape (stop : Number) (shape : Shape)
  | indexRank (rank : Number) (shape : Shape)
  | indexRange (index : Index) (shape : Shape)
  | transferRank (shape : Shape) (origin : Index) (rank : Number)
  | transferShape (shape : Shape)
  | transferOrigin (origin : Index)
  | validBox (valid shape : Shape)
  | scratchRank
  | launchShape (domain tile : Shape)
  | busy
  /-- A tile's body left work for later. -/
  | deferred (tile : Index)
  /-- An error that a body or an element function raises on purpose. -/
  | raised (sort : FaultClass) (message : String)
  /-- Anything else that is thrown on purpose. -/
  | thrown (v : Thrown)
  | unbound (name : String)
  | unknownKind
  /-- A number where a 64-bit integer belongs, or the reverse. -/
  | mixedElements
  /-- A text that does not read as an integer. -/
  | notInteger (text : String)
  | frozen
  /-- The object does not support what is asked of it. -/
  | unsupported
  | fractional
  | tooLarge
  /-- A list of more elements than a list can have, or of no number of them. -/
  | listLength
  | tooDeep
  /-- A list that leads back to itself cannot be written out. -/
  | circular
  | beyondStorage
  /-- A loop whose counter stops growing before its end. -/
  | endless

namespace Fault

def sort : Fault → FaultClass
  | extents _ | storageLength _ _ | valueCount _ _ | rangeShape _
      _ | indexRank _ _
  | transferRank _ _ _ | transferShape _ | validBox _
      _ | scratchRank | launchShape _ _ => .shape
  | indexRange _ _ | transferOrigin _ => .access
  | busy => .busy
  | deferred _ => .deferred
  | raised sort _ => sort
  | thrown _ => .thrown
  | unbound _ => .unbound
  | unknownKind | mixedElements | frozen | unsupported | beyondStorage =>
    .wrongType
  | notInteger _ => .unreadable
  | fractional | tooLarge | listLength | tooDeep | circular | endless =>
    .outOfBounds

/-- Whether the machine raises the fault by itself, and words it. -/
def isForeign : Fault → Bool
  | unknownKind | mixedElements | notInteger
      _ | frozen | unsupported | fractional | tooLarge
  | listLength | tooDeep | circular | beyondStorage | endless => true
  | _ => false

/-- What reports say of a fault (`describeError`): the message of an error, and
the text of a value that is none. -/
def message (wording : Fault → String) : Fault → String
  | extents shape => s!"Invalid array shape {shape.text}"
  | storageLength length shape =>
    s!"Array data length {length} does not match shape {shape.text}"
  | valueCount count shape => s!"Got {count.text} values for shape {shape.text}"
  | rangeShape stop shape =>
    s!"arange({stop.text}) cannot be shaped as {shape.text}"
  | indexRank rank shape =>
    s!"Index rank {rank.text} does not match array shape {shape.text}"
  | indexRange index shape =>
    s!"Index {Shape.text index} is out of range for shape {shape.text}"
  | transferRank shape origin rank =>
    s!"Transfer of shape {shape.text} at {Shape.text origin} does not match array rank {rank.text}"
  | transferShape shape => s!"Invalid transfer shape {shape.text}"
  | transferOrigin origin =>
    s!"Transfer origin {Shape.text origin} must be non-negative integers"
  | validBox valid shape =>
    s!"Valid box {valid.text} does not fit buffer shape {shape.text}"
  | scratchRank => "Scratch buffers need at least one dimension"
  | launchShape domain tile =>
    s!"Invalid launch shape: global {domain.text} local {tile.text}"
  | busy => "Grid driver is already running"
  | deferred tile =>
    s!"Tile {Shape.text tile} returned a promise; grid bodies must be synchronous"
  | raised _ message => message
  | thrown v => v.text
  | unbound name => s!"no such name {name}"
  | f => wording f

end Fault

end TileGrid
