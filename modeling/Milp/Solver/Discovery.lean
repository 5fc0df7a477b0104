import Milp.Action
import Milp.Table

/-!
# Discovery

Which engines can be used where the program runs. The surroundings are an argument: which libraries
and executables there are, and what the plugins say of themselves.
-/

namespace Milp

/-- Where a program runs. -/
structure Environment where
  library : String → Bool
  executable : String → Bool
  /-- A plugin says that it can be used, or breaks off. -/
  plugin : String → Except Fault Bool
  /-- Why the adapter of an engine cannot be loaded, if it cannot. -/
  loadFailure : Backend → Option String

/-- What was found in a place, written down: what is not mentioned is not there. -/
structure Inventory where
  libraries : List String
  executables : List String
  /-- What plugins say of themselves. -/
  plugins : List (String × Except Fault Bool)
  /-- Engines whose adapters cannot be loaded, with the reason. -/
  broken : List (Backend × String)

def Inventory.environment (i : Inventory) : Environment where
  library name := i.libraries.contains name
  executable name := i.executables.contains name
  plugin name := (i.plugins.lookup name).getD (.ok false)
  loadFailure engine := i.broken.lookup engine

namespace Discovery

/-- Why the adapter of Gurobi cannot be loaded where Gurobi is not installed. -/
def gurobiHint : String :=
  "gurobipy is required for the gurobi backend. Install with: pip install ilpkit[gurobi]"

/-- How an engine is reached: through a library, or through a plugin that drives an executable. -/
inductive Route where
  | library (name : String)
  | executable (name : String)
  deriving Repr, DecidableEq

/-- The engines in order of preference. -/
def preferred : List (String × Route) := [
  ("highs", .library "highspy"),
  ("scipy", .library "scipy.optimize"),
  ("gurobi", .library "gurobipy"),
  ("scip", .executable "scip"),
  ("cbc", .executable "cbc"),
  ("glpk", .executable "glpsol"),
  ("cplex", .executable "cplex"),
  ("cpsat", .library "ortools.sat.python.cp_model")]

/-- Asks a plugin whether it can be used; one that breaks off cannot. -/
def askPlugin {σ : Type} (env : Environment) (name : String) : Action σ Bool := do
  match env.plugin name with
  | .ok usable => return usable
  | .error f =>
    if f.cls = .runtime || f.cls = .system || f.cls = .engine then
      .note .debug .parameters ("Pyomo solver " ++ name ++ " not usable: " ++ f.message)
      return false
    else throw f

/-- An engine can be used. -/
def isUsable {σ : Type} (env : Environment) (name : String) : Route → Action σ Bool
  | .library l => return env.library l
  | .executable e => if env.executable e then return true else askPlugin env name

/-- The engines that can be used, in order of preference. -/
def usable {σ : Type} (env : Environment) : Action σ (List String) :=
  preferred.foldlM (fun found e => do
    if ← isUsable env e.1 e.2 then return found ++ [e.1] else return found) []

/-- The engine to use when none is named: the first of those that can be used, HiGHS above all. -/
def choose (found : List String) : Except Fault String :=
  if found.contains "highs" then .ok "highs"
  else match found with
    | name :: _ => .ok name
    | [] => .error .noSolver

/-- The engine to use when none is named. -/
def default {σ : Type} (env : Environment) : Action σ String := do
  let found ← usable env
  .ofExcept (choose found)

/-- The persistent form of a plugin, where it has one. -/
def persistent? : Value → Option String
  | .text "highs" => some "appsi_highs"
  | _ => none

/-- The plugin to use for an engine: its persistent form where that can be used. -/
def pluginName {σ : Type} (env : Environment) (name : Value) : Action σ Value := do
  .ofExcept name.checkKey
  match persistent? name with
  | none => return name
  | some p => if ← askPlugin env p then return .text p else return name

end Discovery

end Milp
