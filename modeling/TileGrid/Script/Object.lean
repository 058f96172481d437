import TileGrid.Script.Answer
import TileGrid.Script.Program

/-!
The names of a script and the objects behind them. A name stands for the object
itself, so what changes through one name shows through all.
-/

namespace TileGrid.Script

/-- What objects hold as a list, and lists as a component. -/
inductive Item where
  /-- A value. A list in it does not change any more. -/
  | value (x : Number)
  /-- The list of that number in the scope. All who hold it see it change. -/
  | list (id : Nat)

/-- A list of the scope. -/
structure StoredList where
  items : List Item
  /-- Nothing can be assigned in it. -/
  fixed : Bool

instance : Inhabited StoredList := ⟨⟨[], true⟩⟩

/-- An entry in the log of an observed array. -/
inductive Logged where
  | access (a : Access)
  /-- What was put in the place of an access. -/
  | replaced (i : Item)

/-- The lists of a tile. -/
structure TileLists where
  id : Item
  offset : Item
  shape : Item
  nominal : Item
  domain : Item
  counts : Item

/-- What a tile holds for a reference. -/
def TileLists.item? (t : TileLists) : Ref → Option Item
  | .id => some t.id
  | .offset => some t.offset
  | .shape => some t.shape
  | .nominal => some t.nominal
  | .domain => some t.domain
  | .counts => some t.counts
  | .walk => none

def TileLists.ofTile (t : Tile) : TileLists where
  id := .value (.ofList t.id)
  offset := .value (.ofList t.offset)
  shape := .value (.ofList t.shape)
  nominal := .value (.ofList t.nominal)
  domain := .value (.ofList t.domain)
  counts := .value (.ofList t.counts)

/-- A body to launch under a name. -/
structure Kernel where
  options : Options
  params : List String
  body : Program

/-- Lists that change, logs and snapshots are known by their number in the
scope, drivers and recorders by their number in the host. -/
inductive Object where
  | tensor (t : Tensor)
  | buffer (b : Buffer)
  /-- A valid leading box of an array that is not a tensor. -/
  | masked (values : Object) (valid : Shape)
  /-- An array whose accesses are noted, under a shape of its own. -/
  | observed (log : Nat) (shape : Item) (inner : Object)
  | slice (array : Object) (origin : Item)
  | context (t : TileLists)
  | driver (id : Nat)
  | recorder (id : Nat)
  | snapshot (id : Nat)
  | launch (l : Launch)
  | kernel (k : Kernel)
  /-- What a parameter without an argument is bound to. -/
  | nothing

/-- What a script has named and made, beside what the host holds. -/
structure Scope where
  names : List (String × Object)
  lists : Array StoredList
  /-- The accesses to each observed array. -/
  logs : Array (Array Logged)
  snapshots : Array (List Entry)
  /-- The list that holds the coordinate of the innermost walk. -/
  walk? : Option Nat
  /-- What the bodies of the innermost run have answered so far. -/
  tiles : Array (List Answer)
  /-- The calls that the element function in use has got so far. -/
  calls : Array (Index × Element)

namespace Scope

def empty : Scope where
  names := []
  lists := #[]
  logs := #[]
  snapshots := #[]
  walk? := none
  tiles := #[]
  calls := #[]

def unbind (s : Scope) (name : String) : Scope :=
  { s with names := s.names.filter (·.1 != name) }

def bind (s : Scope) (name : String) (o : Object) : Scope :=
  { s with names := (name, o) :: (s.unbind name).names }

def bind? (s : Scope) (name? : Option String) (o : Object) : Scope :=
  match name? with
  | some name => s.bind name o
  | none => s

def find (s : Scope) (name : String) : Except Fault Object :=
  match s.names.lookup name with
  | some o => .ok o
  | none => .error (.unbound name)

def items (s : Scope) (id : Nat) : List Item := (s.lists.getD id default).items

def isFixed (s : Scope) (id : Nat) : Bool := (s.lists.getD id default).fixed

def modifyItems (s : Scope) (id : Nat) (f : List Item → List Item) : Scope :=
  { s with lists := s.lists.modify id fun l => { l with items := f l.items } }

/-! ## Items as they stand

An item is followed into lists to a depth, which ends nothing: the lists around
an item are all different, and there are fewer of them. -/

def depth (s : Scope) : Nat := s.lists.size + 1

/-- The value of an item within the lists given, if none is met
again within itself. -/
def read? (s : Scope) : Nat → List Nat → Item → Option Number
  | _, _, .value x => some x
  | 0, _, .list _ => none
  | depth + 1, outer, .list id =>
    if outer.contains id then none
    else do
      let xs ← (s.items id).mapM (s.read? depth (id :: outer))
      return .ofList xs

/-- The text of an item within the lists given. A list met again within itself
leaves its place empty. -/
def textIn (s : Scope) : Nat → List Nat → Item → String
  | _, _, .value x => (Number.ofList [x]).text
  | 0, _, .list _ => ""
  | depth + 1, outer, .list id =>
    if outer.contains id then ""
    else String.intercalate ","
      ((s.items id).map (s.textIn depth (id :: outer)))

/-- The value of a component of a list. -/
def component (s : Scope) (list : Nat) (i : Item) : Number :=
  (s.read? s.depth [] i).getD
    (.stray (.circular (s.textIn s.depth [list] i) (s.textIn s.depth [] i)))

/-- The value of an item. -/
def value (s : Scope) : Item → Number
  | .value x => x
  | .list id => .ofList ((s.items id).map (s.component id))

/-! ## Logs -/

def log (s : Scope) (id : Nat) : List Logged := (s.logs.getD id #[]).toList

def modifyLog (s : Scope) (id : Nat)
    (f : Array Logged → Array Logged) : Scope :=
  { s with logs := s.logs.modify id f }

/-- The name that bodies find their tile under. -/
def tileName : String := "ctx"

/-- The name that stands for the coordinate of a walk. -/
def walkName : String := "i"

end Scope

abbrev State := Host Scope

end TileGrid.Script
