import Milp.Call.Construct
import Milp.Engine.Pyomo
import Milp.Engine.Scipy
import Milp.Store.Encode

/-!
# Functions by name

The stages of a solve one by one, the making of solvers, and what can be asked of any value.
-/

namespace Milp.Store

/-- Calls a function with a signature. -/
def applying (name : String) (required : List String) (optional : List (String × Value))
    (a : Arguments) (body : (Nat → Value) → Action Store Value) : Action Store Value := do
  let given ← .ofExcept (Signature.bind ⟨name, required, optional, none⟩ a)
  body given

/-- Calls a function of the state of the store. -/
def asking (name : String) (required : List String) (a : Arguments)
    (f : Store → (Nat → Value) → Except Fault Value) : Action Store Value :=
  applying name required [] a fun x => do .ofExcept (f (← Action.read) x)

def encodingFunction? (name : String) (a : Arguments) : Option (Action Store Value) :=
  let onProblem (required : List String) (f : Store → (Nat → Value) → Except Fault Value) :
      Action Store Value := asking name ("problem" :: required) a f
  match name with
  | "build_index" => some <| applying name ["problem"] [] a fun x => do
      indexOf (x 0)
  | "effective_bounds" => some <| onProblem ["variable"] fun s x => s.effectiveBounds (x 0) (x 1)
  | "column_arrays" => some <| onProblem ["var_index"] fun s x => s.columnArrays (x 0) (x 1)
  | "row_bounds" => some <| applying name ["constraint"] [] a fun x => rowBounds (x 0)
  | "trivially_satisfied" => some <| applying name ["constraint"] [] a fun x => do
      return .bool ((← rangeOf (x 0)).contains Numeric.zero)
  | "empty_problem_status" => some <| applying name ["problem"] [] a fun x => do
      return .symbol (.status (← statusWithoutVariables (x 0)))
  | "constraint_matrix" => some <| applying name ["problem", "var_index"] [] a fun x =>
      constraintMatrix (x 0) (x 1)
  | "objective_vector" => some <| applying name ["problem", "var_index"] [] a fun x =>
      objectiveVector (x 0) (x 1)
  | "is_maximize" => some <| applying name ["problem"] [] a fun x => do
      if (← member (x 0) "objective").isNone then return .bool false
      return .bool ((← member (x 0) "opt_type").same (.symbol (.sense .max)))
  | "constraint_names" => some <| applying name ["problem"] [] a fun x => do
      newList (← memberOfAll (← member (x 0) "constraints") "name")
  | _ => none

/-- The checks of whole-number data. -/
def checkingFunction? (name : String) (a : Arguments) : Option (Action Store Value) :=
  match name with
  | "check_boolean_domain" => some <| applying name ["problem", "backend"] [] a fun x =>
      silently (checkBoolean (x 0) (x 1))
  | "check_integral_coefficients" => some <| applying name ["problem", "backend"] [] a fun x =>
      silently (checkWhole (x 0) (x 1))
  | "to_int" => some <| applying name ["value", "backend"] [("where", .text "coefficient")] a
      fun x => do return .int (← .ofExcept ((x 0).toWhole Float (x 1) (.named (x 2))))
  | "int_terms" => some <| applying name ["linear", "var_index", "backend"] [] a fun x => do
      wholeTerms (x 0) (x 1) (x 2)
  | "is_integral_type" => some <| asking name ["value"] a fun _ x => .ok (.bool (x 0).isIntegral)
  | _ => none

/-- The stages after an engine has answered, and the calling of hooks. -/
def readingFunction? (name : String) (a : Arguments) : Option (Action Store Value) :=
  match name with
  | "run_hooks" => some <| applying name ["hooks", "native", "var_index"] [] a fun x =>
      silently (callHooks (x 0) (x 1) (x 2))
  | "round_value" => some <| asking name ["problem", "variable", "raw"] a fun s x => do
      return (← s.roundedBy (x 0) (x 1) (x 2)).toValue Quantity.toValue
  | "extract_result" => some <| applying name ["problem", "values"]
      [("objective_value", .none), ("duals", .none)] a fun x => do
      resultOfRaw (x 0) (x 1) (x 2) (x 3)
  | "values_from_array" => some <| applying name ["var_index", "x"] [] a fun x => do
      newDict (← .ofExcept ((← Action.read).valuesAt (x 0) (x 1)))
  | "value_within_bounds" => some <| asking "_value_within_bounds" ["lb", "ub"] a fun s x =>
      Pyomo.valueWithin s.spread ⟨(x 0).toOption, (x 1).toOption⟩
  | "classify_scipy" => some <| asking "_classify" ["code", "x"] a fun _ x =>
      (Scipy.classify (x 0) !(x 1).isNone).map fun st => .symbol (.status st)
  | _ => none

def solverFunction? (env : Environment) (name : String) (a : Arguments) :
    Option (Action Store Value) :=
  match name with
  | "parse_operator" => callSort? (.symbol (.relation .eq)) "parse" a
  | "create_solver" => some <| applying name ["name"] [] a fun x => makeSolver env (x 0)
  | "from_parameters" => some <|
    callingOn "cls" "SolverConfig.from_parameters" ["name", "parameters"] [] a
      fun x => configOf (x 0) (x 1)
  | "get_available_solvers" => some <| applying name [] [] a fun _ => do
      newList ((← Discovery.usable env).map .text)
  | "get_default_solver" => some <| applying name [] [] a fun _ => do
      return .text (← Discovery.default env)
  | "get_pyomo_solver_name" => some <| applying name ["name"] [] a fun x =>
      Discovery.pluginName env (x 0)
  | _ => none

def valueFunction? (name : String) (a : Arguments) : Option (Action Store Value) :=
  let one (f : Value → Action Store Value) : Action Store Value := do
    f (← .ofExcept (a.single name))
  let two (f : Store → Value → Value → Except Fault Value) : Action Store Value :=
    asking name ["a", "b"] a fun s x => f s (x 0) (x 1)
  match name with
  | "str" => some (callType .text a)
  | "repr" => some <| one fun v => do return .text (← literalOf v)
  | "len" => some <| one fun v => do return .int (← .ofExcept ((← Action.read).length v))
  | "list" => some (callType .list a)
  | "bool" => some (callType .bool a)
  | "getitem" => some <| two fun s v k => s.itemAt v k
  | "contains" => some <| two fun s v k => (s.isIn v k).map .bool
  | "eq" => some <| two fun s v w => s.compare v w
  | "ne" => some <| two fun s v w => s.differ v w
  | _ => none

def function? (env : Environment) (name : String) (a : Arguments) : Option (Action Store Value) :=
  encodingFunction? name a <|> checkingFunction? name a <|> readingFunction? name a <|>
    solverFunction? env name a <|> valueFunction? name a

/-- Calls a function. What it gives is told apart from everything else. -/
def callFunction (env : Environment) (name : String) (a : Arguments) : Action Store Value :=
  raising (do distinguish (← (function? env name a).getD (throw (.missingKey (.text name)))))

end Milp.Store
