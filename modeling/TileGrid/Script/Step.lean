import TileGrid.Script.Make
import TileGrid.Script.Change
import TileGrid.Script.ElementFn

/-!
Single steps, and how a list of steps goes on after one.
-/

namespace TileGrid.Script

open State

/-- Why a step did not answer. -/
inductive Stop where
  /-- A fault, and the answer that reports it. -/
  | failed (fault : Fault) (answer : Answer)
  /-- The body around the step is to return. -/
  | returned (v : Returned)

/-- A fault seen from a step that only passes it on. -/
def Stop.ofFault (f : Fault) : Stop := .failed f (.failed f)

/-- What a list of steps answered, and why it ended before its last
step, if it did. -/
structure Outcome where
  answers : List Answer
  stop? : Option Stop

def Outcome.prepend (a : Answer) (o : Outcome) : Outcome :=
  { o with answers := a :: o.answers }

/-- A step in the making. -/
abbrev StepAct := EStateM Stop State

/-- A list of steps in the making. -/
abbrev Steps := State → Outcome × State

/-- An action as part of a step. -/
def asStep {α : Type} (act : Act Scope α) : StepAct α := fun h =>
  match act h with
  | .ok a h => .ok a h
  | .error f h => .error (.ofFault f) h

/-- One step and then the rest. A guarded list of steps goes on
after a fault. -/
def follow (guarded : Bool) (step : StepAct Answer)
    (rest : Steps) : Steps := fun h =>
  match step h with
  | .ok a h =>
    let (o, h) := rest h
    (o.prepend a, h)
  | .error (.failed f a) h =>
    if guarded then
      let (o, h) := rest h
      (o.prepend a, h)
    else (⟨[], some (.failed f a)⟩, h)
  | .error (.returned v) h => (⟨[], some (.returned v)⟩, h)

/-- The answers of a list of steps, as part of one step. -/
def answersOf (steps : Steps) : StepAct (List Answer) := fun h =>
  match steps h with
  | (⟨answers, none⟩, h) => .ok answers h
  | (⟨_, some (.failed f _)⟩, h) => .error (.ofFault f) h
  | (⟨_, some (.returned v)⟩, h) => .error (.returned v) h

/-- Gathers the calls of an element function, also where one fails. -/
def collectCalls (act : Act Scope Buffer) : StepAct (Buffer × Calls) := fun h =>
  let clear := fun (h : State) => modifyScope h ({ · with calls := #[] })
  match act (clear h) with
  | .ok b h => .ok (b, h.caller.calls.toList) (clear h)
  | .error f h =>
    .error (.failed f (.mapFailed f h.caller.calls.toList)) (clear h)

def bindName (as? : Option String) (o : Object) : StepAct Unit := fun h =>
  .ok () (modifyScope h (·.bind? as? o))

def Step.perform : Step → StepAct Answer
  | make as? m => do
    let o ← asStep m.perform
    bindName as? o
    let v ← asStep (view o)
    return .view v
  | map as? of fn k => do
    let (b, calls) ← collectCalls (mapNamed of fn k)
    bindName as? (.buffer b)
    let v ← asStep (view (.buffer b))
    return .mapped v calls
  | ask a => asStep a.answer
  | change c => asStep c.perform

end TileGrid.Script
