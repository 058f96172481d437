import TileGrid.Script.View

/-!
What the steps that only answer do.
-/

namespace TileGrid.Script

open State

/-- The product of two components, which are of one sort. -/
def times : Number → Number → Except Fault Number
  | .stray (.integer m), .stray (.integer n) => .ok (.integer (m * n))
  | a, b => if a.isWide || b.isWide then .error .mixedElements else .ok (a * b)

/-- The products of the components of an index with those of a tile. One that is
missing there is absent. -/
def timesAll : Index → Shape → Except Fault (List Number)
  | [], _ => .ok []
  | i :: is, ts => do
    let x ← times i (ts.headD .absent)
    let xs ← timesAll is ts.tail
    return x :: xs

/-- The components in `rank` dimensions of what should be a list. -/
def leading (rank : Nat) : Number → Except Fault (List Number)
  | .stray .absent => if rank = 0 then .ok [] else .error .unsupported
  | v => .ok (List.take rank (v.parts?.getD []))

def EnvironmentSource.settings (env : Environment) :
    EnvironmentSource → Settings
  | current => .ofVariables env.bindings
  | absent => .ofVariables []
  | given bindings => .ofVariables bindings

def Ask.answer : Ask → Act Scope Answer
  | size s => do
    let s ← evalList s
    needNumbers s
    return .value s.size
  | strides s => do
    let s ← eval s
    match s.parts? with
    | some ds => do
      needNumbers ds
      return .value (.ofList (Shape.strides ds))
    | none =>
      if s = .absent then throw .unsupported
        else return .value (.ofList [.absent])
  | shape s => do
    let s ← eval s
    let s ← settle s.asShape
    .value <$> shown s
  | shapeText s => do
    let s ← evalList s
    return .text (s.text)
  | visits s => do
    let s ← evalList s
    needNumbers s
    let vs ← Shape.visitAll .endless s #[]
      fun (vs : Array (Index × Number)) index linear =>
      return vs.push (index, linear)
    return .visits vs.toList
  | kinds => return .names (Kind.all.map Kind.name)
  | isKind name => return .flag (Kind.ofName? name).isSome
  | ofNumber kind v => do
    let v ← eval v
    let kind ← settle (Kind.named kind)
    let e ← settle (kind.ofNumber v)
    return .value e.toNumber
  | get of index => do
    let o ← find of
    let index ← eval index
    let e ← readAt o index
    return .value e.toNumber
  | toList of => do
    let t ← findTensor of
    let es ← fun h => settle (t.toList h) h
    return .value (.ofElements es)
  | view of => do
    let o ← find of
    let v ← State.view o
    return .view v
  | maxRank => return .value (.ofNat Launch.maxRank)
  | check domain tile => do
    let domain ← eval domain
    let tile ← eval tile
    let domain ← settle domain.components
    let tile ← settle tile.components
    settle (Launch.mk domain tile).check
    return .done
  | counts domain tile => do
    let domain ← eval domain
    let tile ← eval tile
    let domain ← settle domain.components
    let tile ← settle tile.components
    let cs ← settle (Launch.mk domain tile).counts
    return .value (.ofList cs)
  | origin index tile => do
    let index ← eval index
    let tile ← eval tile
    let index ← settle index.components
    let tile ← settle (leading index.length tile)
    if (index ++ tile).any Number.isWide then
      let xs ← settle (timesAll index tile)
      return .value (.ofList xs)
    else return .value (.ofList (Launch.origin index tile))
  | extent start tile domain => do
    let start ← eval start
    let tile ← eval tile
    let domain ← eval domain
    let start ← settle start.components
    let tile ← settle (leading start.length tile)
    let domain ← settle (leading start.length domain)
    needNumbers (start ++ tile ++ domain)
    return .value (.ofList (Launch.extent start tile domain))
  | indices box limit? => do
    let box ← evalList box
    let (is, ended) := Shape.take box (limit?.getD (Shape.stepBound box))
    return .indices is ended
  | compact of => do
    match ← find of with
    | .buffer b => do
      let es ← b.compact
      return .value (.ofElements es)
    | .masked values valid => do
      let array ← backing values
      let es ← valid.readAll array.get
      return .value (.ofElements es)
    | _ => throw .unsupported
  | isValid of index => do
    let o ← find of
    let index ← eval index
    match o with
    | .buffer b => .flag <$> settle (coveredBy b.valid index)
    | .masked _ valid => .flag <$> settle (coveredBy valid index)
    | _ => throw .unsupported
  | value t => do
    let v ← eval t
    .value <$> shown v
  | settings source =>
    fun h => .ok (.settings (source.settings h.environment)) h
  | phase driver => do
    let o ← find driver
    let id ← driverId o
    fun h => .ok (.phase (h.driver id).phase) h

end TileGrid.Script
