import Milp.Call.Method

/-!
# Making objects by name
-/

namespace Milp.Store

/-- The fields of settings that may be absent, with what stands for them then. -/
def settingsDefaults : List (String × Value) :=
  settingsFields.zip [.text "highs", .none, .none, .none, .int 0, .none, .none]

/-- Makes a factory: every argument by name but the name itself is a parameter. -/
def constructFactory (env : Environment) (a : Arguments) : Action Store Value := do
  let (own, others) := a.byName.partition fun e => e.1 == "name" || e.1 == "self"
  calling "SolverFactory.__init__" [] [("name", .none)] ⟨a.inOrder, own⟩ fun x => do
    let options := others.map fun e => (Value.text e.1, e.2)
    makeFactory env (x 0) (.ofList options)

def constructSettings (a : Arguments) : Action Store Value :=
  calling "SolverConfig.__init__" [] settingsDefaults a fun x => do
    let givenOptions := 7 ≤ a.inOrder.length || (a.byName.lookup "options").isSome
    let options ← if givenOptions then pure (x 6) else newDict .empty
    return .config (x 0) (x 1) (x 2) (x 3) (x 4) (x 5) options

/-- Makes an object of a class, if there is one of the name. -/
def construct? (env : Environment) (cls : String) (a : Arguments) :
    Option (Action Store Value) :=
  let plain (required : List String) (optional : List String)
      (body : (Nat → Value) → Action Store Value) : Action Store Value :=
    calling (cls ++ ".__init__") required (optional.map fun n => (n, .none)) a body
  match cls with
  | "Linear" => some <| plain [] ["coefficients", "variables"] fun x => makeLinear (x 0) (x 1)
  | "Term" => some <| callingOn "_cls" "Term.__new__" ["variable", "coefficient"] [] a fun x =>
      return .term (x 0) (x 1)
  | "Constraint" => some <| plain ["lhs", "operator", "rhs"] ["name"] fun x =>
      makeConstraint (x 0) (x 1) (x 2) (x 3)
  | "Problem" => some <| plain [] [] fun _ => newProblem
  | "Result" => some <| plain [] ["objective_value", "objective_expr"] fun x =>
      newResult .empty .empty (x 0) (x 1)
  | "SolverFactory" => some (constructFactory env a)
  | "SolverConfig" => some (constructSettings a)
  | "ParameterBag" => some <| plain [] ["parameters"] fun x => makeBag (x 0)
  | "HookRegistry" => some <| plain [] [] fun _ => newRegistry
  | "GurobiSolver" => some <| plain [] [] fun _ => newSolver .gurobi (.text "gurobi")
  | _ => none

/-- Makes an object of a class. -/
def construct (env : Environment) (cls : String) (a : Arguments) : Action Store Value :=
  raising (do distinguish (← (construct? env cls a).getD (throw (.missingKey (.text cls)))))

end Milp.Store
