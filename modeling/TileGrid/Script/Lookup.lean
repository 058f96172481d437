import TileGrid.Script.Object

/-!
Finding objects by name and working out terms.
-/

namespace TileGrid.Script.State

def find (name : String) : Act Scope Object :=
  fun h => settle (h.caller.find name) h

def modifyScope (h : State) (f : Scope → Scope) : State :=
  { h with caller := f h.caller }

/-- Changes the scope, as an action. -/
def adjust (f : Scope → Scope) : Act Scope Unit :=
  fun h => .ok () (modifyScope h f)

/-! ## Objects of one sort -/

def findTensor (name : String) : Act Scope Tensor := do
  match ← find name with
  | .tensor t => return t
  | _ => throw .unsupported

/-- The recorder of that name, or that of the driver of that name. -/
def findRecorder (name : String) : Act Scope Nat := do
  match ← find name with
  | .recorder id => return id
  | .driver id => fun h => .ok (h.driver id).recorder h
  | _ => throw .unsupported

def findSnapshot (name : String) : Act Scope Nat := do
  match ← find name with
  | .snapshot id => return id
  | _ => throw .unsupported

def findTile (name : String) : Act Scope TileLists := do
  match ← find name with
  | .context t => return t
  | _ => throw .unsupported

/-- The driver that an object is. -/
def driverId : Object → Act Scope Nat
  | .driver id => return id
  | _ => throw .unsupported

/-- Asks that a name, if one is given, is bound. -/
def findIf : Option String → Act Scope (Option Object)
  | some name => some <$> find name
  | none => return none

/-- Asks that an object, if there is one, is a tile. -/
def needTile : Option Object → Act Scope Unit
  | some (.context _) => return ()
  | none => return ()
  | _ => throw .unsupported

/-! ## Lists -/

def newList (items : List Item) (fixed : Bool) : Act Scope Item := fun h =>
  .ok (.list h.caller.lists.size)
    (modifyScope h fun s => { s with lists := s.lists.push ⟨items, fixed⟩ })

/-- The value of an item as it stands. -/
def present (i : Item) : Act Scope Number := fun h => .ok (h.caller.value i) h

/-- A value for an answer. -/
def shown (v : Number) : Act Scope Number :=
  if v.isCircular then throw .circular else return v

/-- The components of a list as they stand. -/
def readList (i : Item) : Act Scope Shape := do
  let v ← present i
  settle v.components

/-- The components of a list themselves. -/
def itemsOf : Item → Act Scope (List Item)
  | .value x => do
    let xs ← settle x.components
    return xs.map .value
  | .list id => fun h => .ok (h.caller.items id) h

/-- A list of the same components in which nothing can be assigned. -/
def fixedCopy (i : Item) : Act Scope Item := do
  let is ← itemsOf i
  newList is true

/-- One component of a list as it stands. -/
def componentAt (i : Item) (d : Nat) : Act Scope Number := do
  let is ← itemsOf i
  present (is.getD d (.value .absent))

/-- As `itemsOf`, where a bare extent is the list of that one extent. -/
def shapeItemsOf : Item → Act Scope (List Item)
  | .value x => do
    let xs ← settle x.toShape
    return xs.map .value
  | i => itemsOf i

/-! ## Terms -/

/-- What a reference stands for, itself and not a copy. -/
def lookUp : Ref → Act Scope Item
  | .walk => fun h =>
    match h.caller.walk? with
    | some id => .ok (.list id) h
    | none => .error (.unbound Scope.walkName) h
  | r => do
    let t ← findTile Scope.tileName
    return (t.item? r).getD (.value .absent)

def lookUpComponent (r : Ref) (k : Nat) : Act Scope Item := do
  let i ← lookUp r
  let is ← itemsOf i
  return is.getD k (.value .absent)

mutual

/-- The value of a term as it stands. -/
def eval : Term → Act Scope Number
  | .value v => return v
  | .ref r => do
    let i ← lookUp r
    present i
  | .component r k => do
    let i ← lookUpComponent r k
    present i
  | .list ts => do
    let vs ← evalAll ts
    return .ofList vs

def evalAll : List Term → Act Scope (List Number)
  | [] => return []
  | t :: ts => do
    let v ← eval t
    let vs ← evalAll ts
    return v :: vs

end

mutual

/-- A term for an object to keep: a list referred to is kept itself, one
written out is new. -/
def evalItem : Term → Act Scope Item
  | .value v => return .value v
  | .ref r => lookUp r
  | .component r k => lookUpComponent r k
  | .list ts => do
    let is ← evalItems ts
    newList is false

def evalItems : List Term → Act Scope (List Item)
  | [] => return []
  | t :: ts => do
    let i ← evalItem t
    let is ← evalItems ts
    return i :: is

end

/-- A term for an object to keep as a list of its own, in which nothing
can be assigned. -/
def evalFixed (t : Term) : Act Scope Item := do
  let i ← evalItem t
  fixedCopy i

/-- A shape, which may be a bare extent. -/
def evalShape (t : Term) : Act Scope Shape := do
  let v ← eval t
  settle v.toShape

def evalList (t : Term) : Act Scope Shape := do
  let v ← eval t
  settle v.components

def eval? : Option Term → Act Scope Number
  | some t => eval t
  | none => return .absent

end TileGrid.Script.State
