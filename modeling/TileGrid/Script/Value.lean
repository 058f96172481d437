import TileGrid.Launch
import TileGrid.Element

/-!
Values that a script writes down or gets back, and the terms that stand
for them. A value is a number or what can stand in the place of one, such
as a list of values.
-/

namespace TileGrid

namespace Number

/-- The components of a list. Nothing else has any. -/
def components : Number → Except Fault Shape
  | stray (.list cs) => .ok cs.toList
  | _ => .error .unsupported

/-- What can be counted off: the components of a list, the
characters of a text. -/
def parts? : Number → Option Shape
  | stray (.list cs) => some cs.toList
  | stray (.joined text) =>
    some (text.toList.map fun c => stray (.joined c.toString))
  | _ => none

/-- How many parts there are. What has no parts has no length. -/
def length (x : Number) : Number :=
  match x.parts? with
  | some ps => .ofNat ps.length
  | none => .absent

/-- A new list of the components. A bare extent is the shape of that
one extent. -/
def toShape : Number → Except Fault Shape
  | stray (.list cs) => .ok (cs.toList.map apart)
  | stray _ => .error .unsupported
  | x => .ok [x]

/-- A shape that may be left out. -/
def toShape? : Number → Except Fault (Option Shape)
  | stray .absent => .ok none
  | v => some <$> v.toShape

/-- As `toShape`, where a text stays as it is. -/
def asShape : Number → Except Fault Number
  | stray (.joined text) => .ok (stray (.joined text))
  | v => ofList <$> v.toShape

def ofElements (es : List Element) : Number := ofList (es.map Element.toNumber)

end Number

namespace Script

/-- A list that a body can refer to. -/
inductive Ref where
  | id
  | offset
  | shape
  | nominal
  | domain
  | counts
  /-- The coordinate of the innermost walk. -/
  | walk

inductive Term where
  | value (v : Number)
  | ref (r : Ref)
  /-- One component of a list referred to. -/
  | component (r : Ref) (k : Nat)
  | list (ts : List Term)

end Script

end TileGrid
