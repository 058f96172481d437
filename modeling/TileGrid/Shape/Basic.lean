import TileGrid.Number.Arithmetic

/-!
Shapes: per-dimension extents, with the size and the row-major strides of the
box that they span. A coordinate is a list of numbers of the same form.
-/

namespace TileGrid

abbrev Shape := List Number

/-- A coordinate of a box. -/
abbrev Index := List Number

namespace Shape

/-- How many elements the box has (`sizeOf`): the product of the extents, taken
from the left. -/
def size (shape : Shape) : Number := shape.foldl (· * ·) 1

/-- The strides of a box, and the product of its extents taken from
the right. -/
def stridesAndSpan : Shape → List Number × Number
  | [] => ([], 1)
  | d :: ds =>
    let (strides, span) := stridesAndSpan ds
    (span :: strides, span * d)

/-- How far apart two elements lie that differ by one in a dimension
(`computeContiguousStrides`). The last dimension is contiguous. -/
def strides (shape : Shape) : List Number := (stridesAndSpan shape).1

/-- The components in brackets (`formatShape`). -/
def text (shape : Shape) : String :=
  "[" ++ (Number.ofList shape).text ++ "]"

/-- Pairs each component with that of `other` in the same dimension. One that is
missing there counts as `nan`. -/
def pairWith (f : Number → Number → Number) : Shape → Shape → Shape
  | [], _ => []
  | a :: as, [] => f a .nan :: pairWith f as []
  | a :: as, b :: bs => f a b :: pairWith f as bs

/-- Whether all pairs of components satisfy `p`. -/
def allPairs (p : Number → Number → Bool) : Shape → Shape → Bool
  | a :: as, b :: bs => p a b && allPairs p as bs
  | _, _ => true

/-- The coordinate that lies `index` past `origin` (`offsetIndex`). -/
def offset (origin : Index) (index : Index) : Index :=
  pairWith (fun i o => o + i) index origin

end Shape

end TileGrid
