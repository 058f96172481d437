import TileGrid.Shape.Basic

/-!
Walking a box in row-major order, the last dimension fastest.

One step, `advance`, drives both walks: `visitAll` counts its visits against
the size of the box, `next?` ends where the first dimension runs over. They
agree on every box of whole extents and part ways on fractional, negative
and undefined ones.
-/

namespace TileGrid.Shape

/-- The coordinate after `index`, and whether the step ran over the whole box:
one round of the loop that `forEachIndex` and `groupIndices` share. A component
that reaches its extent returns to zero and carries to the left; components past
the rank of the box stay as they are. -/
def advance : Shape → Index → Index × Bool
  | d :: ds, i :: is =>
    match advance ds is with
    | (rest, false) => (i :: rest, false)
    | (rest, true) =>
      if (i + 1).lt d then ((i + 1) :: rest, false) else (0 :: rest, true)
  | _, is => (is, true)

/-- The corner from which walks start. -/
def corner (shape : Shape) : Index := shape.map fun _ => 0

/-! ## Enumeration -/

/-- Where `groupIndices` starts: the first coordinate, if no extent is zero or
less. -/
def first? (counts : Shape) : Option Index :=
  if counts.any (·.le 0) then none else some (corner counts)

/-- Where `groupIndices` goes on: the coordinate after `index`, if the box has
one. -/
def next? (counts : Shape) (index : Index) : Option Index :=
  match advance counts index with
  | (next, false) => some next
  | (_, true) => none

/-- At most `n` coordinates from `cursor` on, and whether the enumeration
ended with them. -/
def takeFrom (counts : Shape) : Nat → Option Index → List Index × Bool
  | _, none => ([], true)
  | 0, some _ => ([], false)
  | n + 1, some index =>
    let (rest, ended) := takeFrom counts n (next? counts index)
    (index :: rest, ended)

def take (counts : Shape) (n : Nat) : List Index × Bool :=
  takeFrom counts n (first? counts)

/-- A bound on the steps of every enumeration that ends. A component grows
by one up to 2^53 and then stays there, so a dimension with an extent past
that has no end. -/
def stepBound (counts : Shape) : Nat := 1 <<< (53 * counts.length)

/-- All coordinates of the box (`groupIndices`). -/
def indices (counts : Shape) : List Index := (take counts (stepBound counts)).1

/-! ## Visits -/

/-- Visits from the `linear`-th on, at most as many as the first argument says.
`stuck` is raised where visits remain that were not made. -/
def visitFrom {ε σ β : Type} (stuck : ε) (shape : Shape)
    (visit : β → Index → Number → EStateM ε σ β) :
    Nat → Number → Index → β → EStateM ε σ β
  | 0, linear, _, acc =>
    if linear.lt (size shape) then throw stuck else pure acc
  | n + 1, linear, index, acc =>
    if linear.lt (size shape) then do
      let acc ← visit acc index linear
      visitFrom stuck shape visit n (linear + 1) (advance shape index).1 acc
    else pure acc

/-- Calls `visit` for each coordinate of the box with the number of visits
before it (`forEachIndex`). The count of visits stops growing at 2^53, so a box
of more elements has no end. -/
def visitAll {ε σ β : Type} (stuck : ε) (shape : Shape) (init : β)
    (visit : β → Index → Number → EStateM ε σ β) : EStateM ε σ β :=
  visitFrom stuck shape visit Number.safeLimit 0 (corner shape) init

end TileGrid.Shape
