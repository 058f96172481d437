import TileGrid.Script.Value
import TileGrid.Trace
import TileGrid.Settings
import TileGrid.Run

/-!
Scripts: steps that make, read and change objects known by name, and steps that
run bodies, which are scripts themselves.
-/

namespace TileGrid.Script

/-- Where a transfer goes. -/
inductive Target where
  | named (name : String)
  /-- The array from an origin on, which is copied. -/
  | at (name : String) (origin : Term)
  /-- As `at`, for any object, with the origin kept as it is. -/
  | from (name : String) (origin : Term)

/-- A function on an element and its coordinate, with a constant `k`. -/
inductive ElementFn where
  | ident
  | mul
  | add
  | const
  | neg
  /-- Adds the `k`-th component of the coordinate. -/
  | addIndex
  /-- Fails at the coordinate `k`. -/
  | failAt

/-- Steps that make an object, or find one. -/
inductive Make where
  | zeros (kind : String) (shape : Term)
  | full (kind : String) (shape value : Term)
  | range (kind : String) (stop : Term) (shape? : Option Term)
  | ofValues (kind : String) (values : Term) (shape? : Option Term)
  | share (of : String) (shape : Term)
  | sliceAt (of : String) (origin : Term)
  | slice (target : Target)
  | existing (of : String)
  /-- An array that notes each access and passes it on. -/
  | observe (of : String) (shape? : Option Term)
  | load (context? : Option String) (target : Target) (shape : Term)
  | scratch (context? : Option String) (kind : String) (shape : Term)
  | valuesOf (of : String)
  | masked (values : String) (valid : Term)
  | context (id offset shape nominal domain counts : Term)
  | driver (options : Options)
  | recorder
  | snapshot (of : String)
  | group (domain tile : Term)

/-- The environment that settings are read from. -/
inductive EnvironmentSource where
  | current
  | absent
  | given (bindings : List (String × String))

/-- Steps that only answer. -/
inductive Ask where
  | size (shape : Term)
  | strides (shape : Term)
  | shape (shape : Term)
  | shapeText (shape : Term)
  | visits (shape : Term)
  | kinds
  | isKind (name : String)
  | ofNumber (kind : String) (value : Term)
  | get (of : String) (index : Term)
  | toList (of : String)
  | view (of : String)
  | maxRank
  | check (domain tile : Term)
  | counts (domain tile : Term)
  | origin (index tile : Term)
  | extent (origin tile domain : Term)
  | indices (counts : Term) (limit? : Option Nat)
  | compact (of : String)
  | isValid (of : String) (index : Term)
  | value (t : Term)
  | settings (source : EnvironmentSource)
  | phase (driver : String)

/-- What a script throws on purpose. -/
inductive Toss where
  | error (sort : FaultClass) (message : String)
  | value (t : Term)
  | string (s : String)
  | null

/-- Steps that change something, or fail. -/
inductive Change where
  | set (of : String) (index value : Term)
  | copy (source : String) (sourceIndex : Term) (target : String)
      (targetIndex : Term)
  | store (context? : Option String) (target : Target) (buffer : String)
  /-- Assigns the first component of a list that an object shows. -/
  | mutate (of field : String) (value : Term)
  | setEnvironment (assignments : List (String × Option String))
  /-- Records an event, field by field as it is written. -/
  | record (of : String) (fields : List (String × Number))
  | clear (of : String)
  | dropFirst (of : String)
  | throw (t : Toss)

inductive Step where
  | make (as? : Option String) (m : Make)
  | map (as? : Option String) (of : String) (fn : ElementFn) (k : Term)
  | ask (a : Ask)
  | change (c : Change)

inductive LaunchTerm where
  | named (name : String)
  | given (domain tile : Term)

/-- A list of steps, the first with what follows it. -/
inductive Program where
  | done
  | step (s : Step) (rest : Program)
  /-- The body once for each coordinate of a box. -/
  | walk (shape : Term) (body rest : Program)
  | run (driver : String) (domain tile : Term) (params args : List String)
      (body rest : Program)
  | kernel (as? : Option String) (options : Options) (params : List String)
      (body rest : Program)
  | launch (kernel : String) (launch : LaunchTerm) (args : List String)
      (rest : Program)
  /-- The body if a value is as expected. -/
  | ifSame (value : Term) (expected? : Option Number) (body rest : Program)
  /-- The body, with faults answered and not passed on. -/
  | attempt (body rest : Program)
  /-- Ends the body around it. -/
  | giveBack (v : Returned)

end TileGrid.Script
