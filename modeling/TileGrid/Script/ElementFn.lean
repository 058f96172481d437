import TileGrid.Script.Reference

/-!
Element functions, and mapping one over the valid elements of a buffer.
-/

namespace TileGrid.Script

open State

/-- Numbers and integers do not mix. -/
def combine (onNumbers : Number → Number → Number)
    (onIntegers : Int → Int → Int) : Element → Element → Except Fault Element
  | .number x, .number y => .ok (.number (onNumbers x y))
  | .integer m, .integer n => .ok (.integer (onIntegers m n))
  | _, _ => .error .mixedElements

/-- A sum with a list or a text is the one text after the other. -/
def sum (e : Element) (k : Number) : Except Fault Element :=
  if k.isText then .ok (.number (e.toNumber + k))
    else combine (· + ·) (· + ·) e (.ofNumber k)

/-- The component of a coordinate whose place is written as the value is. -/
def pick (index : Index) (k : Number) : Number :=
  match (List.range index.length).find? (toString · == k.text) with
  | some d => index.getD d .absent
  | none => .absent

/-- Adds a component of a coordinate to an element, as an integer to
an integer. -/
def addComponent (e : Element) (i : Number) : Except Fault Element :=
  match e, i with
  | .number x, i => .ok (.number (x + i))
  | .integer _, .stray _ => .error .mixedElements
  | .integer m, i =>
    match i.toInt? with
    | some n => .ok (.integer (m + n))
    | none => .error .fractional

/-- Whether a list is written as a coordinate is. -/
def isAt (index : Index) (k : Number) : Except Fault Bool := do
  let place ← k.components
  return Shape.text index == place.text

/-- The value of an element function with the constant `k`. -/
def ElementFn.apply (fn : ElementFn) (k : Number) (e : Element)
    (index : Index) : Except Fault Element := do
  match fn with
  | ident => return e
  | mul => combine (· * ·) (· * ·) e (.ofNumber k)
  | add => sum e k
  | const => return .ofNumber k
  | neg =>
    match e with
    | .number x => return .number (-x)
    | .integer n => return .integer (-n)
  | addIndex => addComponent e (pick index k)
  | failAt =>
    if ← isAt index k then
      throw (.raised .failure s!"map failed at {Shape.text index}")
    else return e

/-- Notes a call before it is made. -/
def noted (fn : Element → Index → Except Fault Element) (e : Element)
    (index : Index) : Act Scope Element := do
  adjust fun s => { s with calls := s.calls.push (index, e) }
  settle (fn e index)

def mapNamed (of : String) (fn : ElementFn) (k : Term) : Act Scope Buffer := do
  let o ← find of
  let k ← eval k
  match o with
  | .buffer b => b.map (noted (fn.apply k))
  | .masked values valid => do
    let array ← backing values
    let shape ← settle values.shape
    let shape ← readList shape
    let m ← Masked.ofReads array.kind shape valid array.get (noted (fn.apply k))
    Buffer.allocate m
  | _ => throw .unsupported

end TileGrid.Script
