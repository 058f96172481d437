import TileGrid.Fault
import TileGrid.Shape.Walk

/-!
Launches: an iteration space cut into tiles. How many tiles each dimension has,
where a tile starts, and how much of its nominal shape lies inside the space.
-/

namespace TileGrid

/-- An iteration space and the tiles it is cut into (`LaunchConfig`). -/
structure Launch where
  /-- The extents of the iteration space. -/
  domain : Shape
  /-- The nominal extents of a tile. -/
  tile : Shape

/-- What a body is told about its tile (`GroupContext`). -/
structure Tile where
  id : Index
  offset : Index
  /-- The extents inside the iteration space, less than nominal at a
  ragged edge. -/
  shape : Shape
  nominal : Shape
  domain : Shape
  counts : Shape

namespace Launch

/-- Iteration spaces have at most this many dimensions (`MAX_GRID_RANK`). -/
def maxRank : Nat := 3

/-- Whether an extent is a whole number of at least one
(`isPositiveInteger`). -/
def isPositive (x : Number) : Bool := x.isInteger && Number.lt 0 x

/-- Accepts launches of one to three dimensions with positive extents
(`validateLaunchShapes`). -/
def check (l : Launch) : Except Fault Unit :=
  if 1 ≤ l.domain.length ∧ l.domain.length ≤ maxRank ∧
    l.domain.length = l.tile.length ∧
      l.domain.all isPositive ∧ l.tile.all isPositive then .ok ()
  else .error (.launchShape l.domain l.tile)

/-- How many tiles each dimension has (`groupCount`). -/
def counts (l : Launch) : Except Fault Shape := do
  l.check
  return Shape.pairWith (fun g t => (g / t).ceil) l.domain l.tile

/-- Where the tile of an index starts (`groupOrigin`). -/
def origin (index : Index) (tile : Shape) : Index :=
  Shape.pairWith (· * ·) index tile

/-- How much of the tile that starts at `origin` lies inside the iteration space
(`groupExtent`). -/
def extent (origin : Index) (tile domain : Shape) : Shape :=
  let room := Shape.pairWith (fun o g => g - o) origin domain
  Shape.pairWith (fun r t => Number.min t r) room tile

/-- The tile of an index, as `GridDriver.run` tells a body of it. -/
def tileAt (l : Launch) (counts : Shape) (id : Index) : Tile :=
  let offset := origin id l.tile
  { id, offset, shape := extent offset l.tile l.domain, nominal := l.tile,
    domain := l.domain, counts }

end Launch

end TileGrid
