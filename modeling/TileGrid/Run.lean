import TileGrid.Host
import TileGrid.Launch

/-!
Running a body over the tiles of a launch, one at a time in row-major order.

A run stops at the first tile whose body fails or leaves work for later.
What was done up to there stays done, and the driver is at rest again
however the run ends.
-/

namespace TileGrid

/-- What an object has under the name `then`, itself or by inheritance. -/
inductive Member where
  | absent
  /-- Something that cannot be called. -/
  | value
  /-- A function. What it promises may be known to fail, for the
  reason given. -/
  | callable (rejection : Option Fault)

/-- What a body returned, as far as a driver looks at it. -/
inductive Returned where
  /-- Nothing, a number, a text: what is neither an object nor a function. -/
  | primitive
  | null
  | function (member : Member)
  | object (member : Member)

namespace Returned

/-- Whether work is left for later (`isThenable`). A function does not
count as an object. -/
def isThenable : Returned → Bool
  | object (.callable _) => true
  | _ => false

/-- Why the work that is left fails, if that is known. -/
def rejection : Returned → Option Fault
  | object (.callable rejection) => rejection
  | _ => none

end Returned

/-- How a body that did not fail ended. -/
inductive Completion where
  | finished
  /-- Work is left for later, which may be known to fail, for the
  reason given. -/
  | deferred (rejection : Option Fault)

/-- How a driver takes what a body returned. -/
def Returned.completion (v : Returned) : Completion :=
  if v.isThenable then .deferred v.rejection else .finished

/-- Work is left for later by an object whose `then` can be called, and by
nothing else. -/
theorem Returned.completion_eq_deferred_iff {v : Returned}
    {rejection : Option Fault} :
    v.completion = .deferred rejection ↔ v = .object (.callable rejection) := by
  rcases v with _ | _ | m | m
  case object => cases m <;> simp [completion, isThenable, Returned.rejection]
  all_goals simp [completion, isThenable]

/-- Where a run stopped, and after how many tiles. -/
structure Abort where
  fault : Fault
  tile : Index
  finished : Number

namespace Host

variable {ν : Type}

/-- What reports say of a fault (`describeError`). -/
def describe (h : Host ν) (fault : Fault) : String :=
  fault.message h.environment.wording

/-- Deferred work that fails is only warned about, by the handler that
`GridDriver.run` leaves with it: its run has already stopped. -/
def warnRejected (h : Host ν) (tile : Index) : Option Fault → Host ν
  | some reason =>
    h.warn
      s!"[grid] async tile {Shape.text tile} rejected after the run was aborted: {h.describe reason}"
  | none => h

/-- The loop of `GridDriver.run`: runs the tiles from `cursor` on, `finished` of
them being done; at most as many as the first number says. The launch is looked
up anew for each tile. -/
def runTiles (id : Nat) (current : Act ν Launch) (counts : Shape)
    (body : Tile → Act ν Completion) :
    Nat → Option Index → Number → EStateM Abort (Host ν) Number
  | _, none, finished => pure finished
  | 0, some index, finished => throw ⟨.endless, index, finished⟩
  | n + 1, some index, finished => fun h =>
    match current h with
    | .error fault h => .error ⟨fault, index, finished⟩ h
    | .ok l h =>
      let t := l.tileAt counts index
      match body t (h.emit id (.tile t.id t.offset t.shape)) with
      | .ok .finished h =>
        runTiles id current counts body n (Shape.next? counts index)
          (finished + 1) h
      | .ok (.deferred rejection) h =>
        .error ⟨.deferred index, index, finished⟩
          (h.warnRejected index rejection)
      | .error fault h => .error ⟨fault, index, finished⟩ h

/-- Runs `body` over the tiles of a launch (`GridDriver.run`). A driver that
is running refuses, whatever the launch. The number of tiles is that of the
launch given at the start; where the tiles lie is that of the launch as it
currently stands. -/
def runOver (id : Nat) (given current : Act ν Launch)
    (body : Tile → Act ν Completion) : Act ν Unit := fun h =>
  match (h.driver id).phase with
  | .running => .error .busy h
  | .idle =>
    match given h with
    | .error fault h => .error fault h
    | .ok l h =>
      match l.counts with
      | .error fault => .error fault h
      | .ok counts =>
        let h :=
          (h.setPhase id .running).emit id (.start l.domain l.tile counts)
        match runTiles id current counts body counts.stepBound
          counts.first? 0 h with
        | .ok tiles h => .ok () ((h.emit id (.finish tiles)).setPhase id .idle)
        | .error a h =>
          let h := h.emit id (.abort a.tile a.finished (h.describe a.fault))
          .error a.fault (h.setPhase id .idle)

/-- Runs `body` over the tiles of a launch that stays as it is. -/
def run (id : Nat) (l : Launch) (body : Tile → Act ν Completion) : Act ν Unit :=
  runOver id (pure l) (pure l) body

/-- Launches a kernel (`kernel`): a run on a driver of its own. -/
def launchOver (o : Options) (given current : Act ν Launch)
    (body : Tile → Act ν Completion) : Act ν Unit := do
  let id ← newDriver o
  runOver id given current body

/-- Launches a kernel over a launch that stays as it is. -/
def launch (o : Options) (l : Launch) (body : Tile → Act ν Completion) :
    Act ν Unit :=
  launchOver o (pure l) (pure l) body

end Host

end TileGrid
