import TileGrid.Fault

/-!
What a driver records and prints, and the environment that decides where
the caller does not.
-/

namespace TileGrid

/-- What a program finds around it. -/
structure Environment where
  /-- Variables and their values. -/
  bindings : List (String × String)
  /-- How the machine words the faults that it raises by itself. -/
  wording : Fault → String

namespace Environment

/-- No variables, and no words. -/
def empty : Environment := ⟨[], fun _ => ""⟩

/-- Names and values end before their first null character. -/
def cut (s : String) : String :=
  String.ofList (s.toList.takeWhile (· != '\x00'))

/-- Sets a variable, or removes it. -/
def assign (env : Environment) (name : String)
    (value? : Option String) : Environment :=
  let others := env.bindings.filter (·.1 != cut name)
  match value? with
  | some value => { env with bindings := (cut name, cut value) :: others }
  | none => { env with bindings := others }

/-- Makes assignments one after the other. -/
def assignAll (env : Environment)
    (assignments : List (String × Option String)) : Environment :=
  assignments.foldl (fun env (name, value?) => env.assign name value?) env

end Environment

structure Settings where
  /-- Events are recorded. -/
  trace : Bool
  /-- Events are printed. -/
  log : Bool
  deriving DecidableEq

/-- The settings that variables ask for (`readGridConfig`). -/
def Settings.ofVariables (bindings : List (String × String)) : Settings where
  trace := bindings.lookup "TILESIM_TRACE" == some "1"
  log := bindings.lookup "TILESIM_LOG" == some "1"

/-- Settings of which some are left to the environment (`GridDriverOptions`). -/
structure Options where
  trace : Option Bool
  log : Option Bool

def Options.settings (o : Options) (env : Environment) : Settings where
  trace := o.trace.getD (Settings.ofVariables env.bindings).trace
  log := o.log.getD (Settings.ofVariables env.bindings).log

end TileGrid
