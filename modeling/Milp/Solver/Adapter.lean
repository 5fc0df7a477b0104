import Milp.Solver.Discovery
import Milp.Solver.Settings
import Milp.Text.Case

/-!
# Solvers

A solver is an engine to be used, with its parameters, its hooks in order, and how the last solve
ended. Solvers are created by name, without parameters.
-/

namespace Milp

/-- A solver. -/
structure Solver where
  backend : Backend
  /-- The name of the engine, or of the plugin that reaches it. -/
  name : Value
  parameters : Table Value
  /-- The hooks in the order in which they run. -/
  hooks : List Value
  lastStatus : Value
  deriving Repr, Inhabited

namespace Solver

/-- A solver without parameters and hooks. -/
def fresh (backend : Backend) (name : String) : Solver :=
  ⟨backend, .text name, .empty, [], .none⟩

def ownLibrary? : String → Option Backend
  | "highs" => some .highs
  | "scipy" => some .scipy
  | "cpsat" => some .cpsat
  | "gurobi" => some .gurobi
  | _ => none

/-- Engines that are reached through a plugin of the same name. -/
def plugins : List String := ["glpk", "cbc", "scip", "cplex"]

def pluginAsked? (name : String) : Option String :=
  let kind := "pyomo:"
  if kind.isPrefixOf name then some (String.ofList (name.toList.drop kind.length)) else none

/-- What a name in small letters asks for: an engine and the name to give it. -/
def named? (name : String) : Option (Backend × String) :=
  match ownLibrary? name with
  | some b => some (b, name)
  | none =>
    match pluginAsked? name with
    | some plugin => some (.pyomo, plugin)
    | none => if plugins.contains name then some (.pyomo, name) else none

/-- The name that a value is, in small letters. -/
def lowerName : Value → Except Fault String
  | .text s => .ok (Text.toLower s)
  | .type .text => .error (.withoutObject "str.lower")
  | v => .error (v.lacks "lower")

/-- The solver of a name, letters of either case being the same. -/
def create (env : Environment) (given : Value) : Except Fault Solver := do
  let name ← lowerName given
  match named? name with
  | none => throw (.unavailable (.unknownName name))
  | some (backend, engine) =>
    match env.loadFailure backend with
    | some reason => throw (.unavailable (.notLoaded name reason))
    | none => return fresh backend (Text.toLower engine)

/-- The name of the solver of a factory that was given a name or none. -/
def nameFor {σ : Type} (env : Environment) (given : Value) : Action σ String := do
  match given with
  | .none => return Text.toLower (← Discovery.default env)
  | v => .ofExcept (lowerName v)

end Solver

end Milp
