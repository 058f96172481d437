import TileGrid.Script.Step

/-!
Executing scripts.

`Program.exec` is by recursion on the program. Kernels are found by name, so
their bodies need not be parts of it: what a launch does with a body is a
parameter, and `Program.execute` ties the knot up to a depth of nesting.
-/

namespace TileGrid.Script

open State

/-! ## Walks -/

/-- Moves the coordinate in a list on by one step through a shape, in
the dimensions below the number given. Both lists are looked at anew for
each dimension. -/
def advanceList (shape : Item) (coordinate : Nat) : Nat → Act Scope Unit
  | 0 => return ()
  | d + 1 => do
    let i ← componentAt (.list coordinate) d
    needNumbers [i]
    adjust (·.modifyItems coordinate (·.set d (.value (i + 1))))
    let extent ← componentAt shape d
    if (i + 1).lt extent then return ()
    else do
      adjust (·.modifyItems coordinate (·.set d (.value 0)))
      advanceList shape coordinate d

/-- The visits from the `linear`-th on, at most as many as the first number
says. The coordinate is a list that the steps may hold and change, and so may be
the shape; the rank and the number of visits are those at the start. -/
def walkFrom (shape : Item) (rank : Nat) (total : Number) (coordinate : Nat)
    (body : Steps) : Nat → Number → Array Answer → StepAct (Array Answer)
  | 0, linear, out =>
    if linear.lt total then throw (.ofFault .endless) else return out
  | n + 1, linear, out =>
    if linear.lt total then do
      let answers ← answersOf body
      asStep (advanceList shape coordinate rank)
      walkFrom shape rank total coordinate body n (linear + 1)
        (out.push (.list answers))
    else return out

/-- Runs the steps with a new list as the coordinate of the innermost walk. -/
def withCoordinate (index : Index) (act : Nat → StepAct Answer) :
    StepAct Answer := fun h =>
  let outer := h.caller.walk?
  let coordinate := h.caller.lists.size
  let enter := fun (s : Scope) =>
    { s with
      lists := s.lists.push ⟨index.map .value, false⟩
      walk? := some coordinate }
  match act coordinate (modifyScope h enter) with
  | .ok a h => .ok a (modifyScope h ({ · with walk? := outer }))
  | .error s h => .error s (modifyScope h ({ · with walk? := outer }))

/-- Runs the steps once for each coordinate of a box. -/
def walkBox (shape : Term) (body : Steps) : StepAct Answer := do
  let l ← asStep (evalItem shape)
  let box ← asStep (readList l)
  asStep (needNumbers box)
  withCoordinate box.corner fun coordinate => do
    let out ← walkFrom l box.length box.size coordinate body
      Number.safeLimit 0 #[]
    return .list out.toList

/-! ## Runs -/

/-- Binds each parameter to the argument of its position. -/
def bindParams (s : Scope) : List String → List Object → Scope
  | [], _ => s
  | p :: ps, os => bindParams (s.bind p (os.headD .nothing)) ps os.tail

/-- One call of a body. The tile is bound for its time; what it answered is
kept, also where it fails. -/
def callBody (params : List String) (args : List Object) (body : Steps)
    (t : TileLists) : Act Scope Completion := fun h =>
  let before? := h.caller.names.lookup Scope.tileName
  let (o, h) := body
    (modifyScope h fun s =>
      bindParams (s.bind Scope.tileName (.context t)) params args)
  let h := modifyScope h fun s =>
    let s := match before? with
      | some o => s.bind Scope.tileName o
      | none => s.unbind Scope.tileName
    { s with tiles := s.tiles.push o.answers }
  match o.stop? with
  | none => .ok .finished h
  | some (.returned v) => .ok v.completion h
  | some (.failed f _) => .error f h

/-- Calls a body for a tile, which holds what the two lists of its
launch hold. -/
def tileBody (domain tile : Item) (params : List String) (args : List Object)
    (body : Steps) (t : Tile) : Act Scope Completion := do
  let domain ← fixedCopy domain
  let nominal ← fixedCopy tile
  callBody params args body { TileLists.ofTile t with domain, nominal }

/-- Gathers what the bodies of a run answer, also where one fails. -/
def collectTiles (act : Act Scope Unit) : StepAct Answer := fun h =>
  let outer := h.caller.tiles
  let restore := fun (h : State) => modifyScope h ({ · with tiles := outer })
  match act (modifyScope h ({ · with tiles := #[] })) with
  | .ok () h => .ok (.tiles h.caller.tiles.toList) (restore h)
  | .error f h =>
    .error (.failed f (.runFailed f h.caller.tiles.toList)) (restore h)

def findAll : List String → Act Scope (List Object)
  | [] => return []
  | name :: names => do
    let o ← find name
    let os ← findAll names
    return o :: os

/-- The launch of two lists as they stand. -/
def readLaunch (domain tile : Item) : Act Scope Launch := do
  let domain ← readList domain
  let tile ← readList tile
  return ⟨domain, tile⟩

/-- As `readLaunch`, for arithmetic. -/
def readNumbers (domain tile : Item) : Act Scope Launch := do
  let l ← readLaunch domain tile
  needNumbers (l.domain ++ l.tile)
  return l

/-- The two lists of a launch. What is no launch has none. -/
def evalLaunch : LaunchTerm → Act Scope (Item × Item)
  | .named name => do
    match ← find name with
    | .launch l => return (.value (.ofList l.domain), .value (.ofList l.tile))
    | _ => return (.value .absent, .value .absent)
  | .given domain tile => do
    let domain ← evalItem domain
    let tile ← evalItem tile
    return (domain, tile)

def runOn (driver : String) (domain tile : Term) (params args : List String)
    (body : Steps) : StepAct Answer :=
  collectTiles do
    let o ← find driver
    let (domain, tile) ← evalLaunch (.given domain tile)
    let args ← findAll args
    let id ← driverId o
    Host.runOver id (readLaunch domain tile) (readNumbers domain tile)
      (tileBody domain tile params args body)

def launchKernel (call : Program → Steps) (kernel : String)
    (launch : LaunchTerm) (args : List String) : StepAct Answer :=
  collectTiles do
    let (domain, tile) ← evalLaunch launch
    let o ← find kernel
    let args ← findAll args
    match o with
    | .kernel k =>
      Host.launchOver k.options (readLaunch domain tile)
        (readNumbers domain tile)
        (tileBody domain tile k.params args (call k.body))
    | _ => throw .unsupported

/-! ## Programs -/

/-- Executes a program. `call` is what launches do with the body of a kernel. -/
def Program.exec (call : Program → Steps) : Program → Bool → Steps
  | done, _ => fun h => (⟨[], none⟩, h)
  | step s rest, guarded => follow guarded s.perform (exec call rest guarded)
  | walk shape body rest, guarded =>
    follow guarded (walkBox shape (exec call body false))
      (exec call rest guarded)
  | run driver domain tile params args body rest, guarded =>
    follow guarded (runOn driver domain tile params args (exec call body false))
      (exec call rest guarded)
  | kernel as? options params body rest, guarded =>
    let steps := do
      bindName as? (.kernel ⟨options, params, body⟩)
      return .done
    follow guarded steps (exec call rest guarded)
  | launch name l args rest, guarded =>
    follow guarded (launchKernel call name l args) (exec call rest guarded)
  | ifSame value expected? body rest, guarded =>
    let steps := do
      let v ← asStep (eval value)
      let v ← asStep (shown v)
      if expected? = some v then
        let answers ← answersOf (exec call body false)
        return .list answers
      else return .skipped
    follow guarded steps (exec call rest guarded)
  | attempt body rest, guarded =>
    let steps := do
      let answers ← answersOf (exec call body true)
      return .list answers
    follow guarded steps (exec call rest guarded)
  | giveBack v, _ => fun h => (⟨[], some (.returned v)⟩, h)

/-- Executes a program whose launches nest at most so deep. -/
def Program.execute : Nat → Program → Bool → Steps
  | 0 => exec fun _ h => (⟨[], some (.ofFault .tooDeep)⟩, h)
  | depth + 1 => exec fun body => execute depth body false

/-- How deep launches may nest. -/
def nestingLimit : Nat := 400

/-- What a script leaves to be seen. -/
structure Report where
  answers : List Answer
  console : List String
  warnings : List String

/-- Runs a script from an empty state. Faults are answered step by step, and the
warnings, which come when all steps have ended, are sorted. -/
def Program.report (p : Program) (env : Environment) : Report :=
  let (o, h) := p.execute nestingLimit true (Host.empty env Scope.empty)
  { answers := o.answers
    console := h.console.toList
    warnings := h.warnings.toList.mergeSort fun a b => decide (a ≤ b) }

end TileGrid.Script
