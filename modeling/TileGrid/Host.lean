import TileGrid.Transfer
import TileGrid.Trace
import TileGrid.Settings

/-!
The state that runs share: storages, drivers with their traces, what was
printed, the environment, and whatever the caller keeps beside them.
-/

namespace TileGrid

inductive Phase where
  | idle
  | running
  deriving DecidableEq

/-- A driver (`GridDriver`). -/
structure Driver where
  phase : Phase
  settings : Settings
  /-- Where its events are recorded. -/
  recorder : Nat

instance : Inhabited Driver := ⟨⟨.idle, ⟨false, false⟩, 0⟩⟩

/-- Storages, recorders and drivers are known by their number. -/
structure Host (ν : Type) where
  storages : Array (Array Element)
  recorders : Array (Array Entry)
  drivers : Array Driver
  console : Array String
  warnings : Array String
  environment : Environment
  caller : ν

/-- An action on the host. What it did before a fault stays done. -/
abbrev Act (ν : Type) := EStateM Fault (Host ν)

namespace Host

variable {ν : Type}

def empty (environment : Environment) (caller : ν) : Host ν where
  storages := #[]
  recorders := #[]
  drivers := #[]
  console := #[]
  warnings := #[]
  environment
  caller

def cells (h : Host ν) (storage : Nat) : Array Element :=
  h.storages.getD storage #[]

/-- Writes one cell of a storage. -/
def putCell (h : Host ν) (storage position : Nat) (e : Element) : Host ν :=
  { h with storages := h.storages.modify storage (·.setIfInBounds position e) }

/-- What a trace holds (`TraceRecorder.snapshot`). -/
def entries (h : Host ν) (recorder : Nat) : Array Entry :=
  h.recorders.getD recorder #[]

/-- Adds an entry to a trace (`TraceRecorder.record`). An idealisation:
traces have no bound here, where the list behind one takes fewer than
`listLimit` entries. -/
def record (h : Host ν) (recorder : Nat) (e : Entry) : Host ν :=
  { h with recorders := h.recorders.modify recorder (·.push e) }

/-- Forgets the entries of a trace (`TraceRecorder.clear`). -/
def clear (h : Host ν) (recorder : Nat) : Host ν :=
  { h with recorders := h.recorders.setIfInBounds recorder #[] }

def print (h : Host ν) (line : String) : Host ν :=
  { h with console := h.console.push line }

def warn (h : Host ν) (line : String) : Host ν :=
  { h with warnings := h.warnings.push line }

def driver (h : Host ν) (id : Nat) : Driver := h.drivers.getD id default

def setPhase (h : Host ν) (id : Nat) (phase : Phase) : Host ν :=
  { h with drivers := h.drivers.modify id ({ · with phase }) }

/-- Records and prints an event, as the driver's settings say: what
`GridDriver.run` does at each of its reports. -/
def emit (h : Host ν) (id : Nat) (e : Event) : Host ν :=
  let d := h.driver id
  let h := if d.settings.trace then h.record d.recorder (.event e) else h
  if d.settings.log then h.print e.line else h

def newRecorder : Act ν Nat := fun h =>
  .ok h.recorders.size { h with recorders := h.recorders.push #[] }

/-- A driver at rest: the constructor of `GridDriver`. What its options leave
open the environment decides now. -/
def newDriver (o : Options) : Act ν Nat := do
  let recorder ← newRecorder
  fun h =>
    let d : Driver := ⟨.idle, o.settings h.environment, recorder⟩
    .ok h.drivers.size { h with drivers := h.drivers.push d }

end Host

end TileGrid
