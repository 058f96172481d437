import TileGrid.Script.Ask

/-!
What the steps that change something do.
-/

namespace TileGrid.Script

open State

/-- A list with its first component replaced. The empty list grows. -/
def assignFirst (i : Item) : List Item → List Item
  | [] => [i]
  | _ :: rest => i :: rest

/-- Replaces the first entry of a log. The empty log grows. -/
def replaceFirst (i : Item) (log : Array Logged) : Array Logged :=
  if log.isEmpty then #[.replaced i] else log.setIfInBounds 0 (.replaced i)

/-- Replaces the first event. Where there is none, it becomes the first. -/
def replaceEvent (v : Number) : List Entry → List Entry
  | [] => [.value v]
  | _ :: rest => .value v :: rest

/-- The list that an object shows in a field, where it is not fixed in
any case. -/
def Object.list? : Object → String → Option Item
  | slice _ origin, "origin" => some origin
  | observed _ shape _, "shape" => some shape
  | masked values _, "shape" => values.shape.toOption
  | _, _ => none

/-- Assigns the first component of the list in a field. A field that holds an
object takes the assignment and does not show it. -/
def assignField (o : Object) (field : String) (i : Item) : Act Scope Unit :=
  match o, field with
  | .tensor t, "data" => do
    let v ← present i
    t.setFirst (.ofNumber v)
  | .observed log _ _, "log" => adjust (·.modifyLog log (replaceFirst i))
  | .recorder id, "events" => do
    let v ← present i
    let v ← shown v
    fun h => .ok () { h with
      recorders := h.recorders.modify id fun es =>
        (replaceEvent v es.toList).toArray }
  | .snapshot id, "events" => do
    let v ← present i
    let v ← shown v
    adjust fun s =>
      { s with snapshots := s.snapshots.modify id (replaceEvent v) }
  | .observed _ _ _, "inner" => return ()
  | .buffer _, "values" => return ()
  | .masked _ _, "values" => return ()
  | .slice _ _, "array" => return ()
  | .driver _, "trace" => return ()
  | o, field =>
    match o.list? field with
    | some (.list id) => fun h =>
      if h.caller.isFixed id then .error .frozen h
      else .ok () (modifyScope h (·.modifyItems id (assignFirst i)))
    | _ => throw .frozen

/-- The tensor whose elements are answered after a store to an array. -/
def destination : Object → Act Scope Tensor
  | .tensor t => return t
  | .observed _ _ (.tensor t) => return t
  | .slice (.tensor t) _ => return t
  | .slice (.observed _ _ (.tensor t)) _ => return t
  | _ => throw .unsupported

/-- Stores what a buffer marks as valid. An array that marks nothing is refused
after the check of its shape. -/
def storeFrom (target buffer : Object) : Act Scope Unit := do
  let shape ← settle buffer.shape
  let shape ← readList shape
  let slice ← sliceFor target shape
  match buffer with
  | .buffer b => Buffer.store slice b
  | .masked values valid => do
    let array ← backing values
    Transfer.store slice shape valid array.get
  | _ => throw .unsupported

def Toss.toFault : Toss → Act Scope Fault
  | error sort message => return .raised sort message
  | value t => do
    let v ← eval t
    return .thrown (.value v)
  | string s => return .thrown (.string s)
  | null => return .thrown .null

def Change.perform : Change → Act Scope Answer
  | set of index value => do
    let o ← find of
    let index ← eval index
    let value ← eval value
    writeAt o index (.ofNumber value)
    return .done
  | copy source sourceIndex target targetIndex => do
    let o ← find source
    let index ← eval sourceIndex
    let e ← readAt o index
    let o ← find target
    let index ← eval targetIndex
    writeAt o index e
    return .value e.toNumber
  | store context? target buffer => do
    let target ← resolve target
    let buffer ← find buffer
    let context? ← findIf context?
    needTile context?
    storeFrom target buffer
    let t ← destination target
    let es ← fun h => settle (t.toList h) h
    return .stored es
  | mutate of field value => do
    let o ← find of
    let i ← evalItem value
    assignField o field i
    let seen ← view o
    return .view seen
  | setEnvironment assignments => fun h =>
    .ok .done { h with environment := h.environment.assignAll assignments }
  | record of fields => do
    let id ← findRecorder of
    fun h => .ok .done (h.record id (.given fields))
  | clear of => do
    let id ← findRecorder of
    fun h => .ok .done (h.clear id)
  | dropFirst of => do
    let id ← findSnapshot of
    fun h =>
      let h := modifyScope h fun s =>
        { s with snapshots := s.snapshots.modify id List.tail }
      .ok (.view (.snapshot (h.caller.snapshots.getD id []))) h
  | throw t => do
    let f ← t.toFault
    MonadExcept.throw f

end TileGrid.Script
