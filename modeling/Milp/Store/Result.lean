import Milp.Number.Quantity
import Milp.Solution
import Milp.Store.Conversion
import Milp.Store.Member

/-!
# Calls on results
-/

namespace Milp.Store

def resultOf {K : Type} (value : K → Value) (objective : Value) (x : Solution K) :
    Action Store Value :=
  newResult (x.primal.map (·.toValue value)) (x.dual.map value)
    (.ofOption (x.objectiveValue.map (·.toValue value))) objective

/-! ## Problems -/

/-- A value has a call of problems, and nothing was put in its place. -/
def checkCall (s : Store) (v : Value) (call : String) : Except Fault Unit :=
  match s.refusal? v call, v with
  | some f, _ => .error f
  | none, .object ⟨.problem, _⟩ => .ok ()
  | none, v => .error (v.lacks call)

/-- What the problem that a value is knows of variables. -/
def declarationsOf (s : Store) : Value → Declarations
  | .object ⟨.problem, id⟩ => (s.problem id).toDeclarations
  | _ => .empty

/-- The domain of a variable, as the problem that a value must be gives it. -/
def domainBy (s : Store) (problem var : Value) : Except Fault Domain := do
  s.checkCall problem "get_var_type"
  var.checkKey
  return (s.declarationsOf problem).domainOf var

/-! ## Raw values -/

def roundedBy (s : Store) (problem var raw : Value) : Except Fault (Number Quantity) := do
  let domain ← s.domainBy problem var
  Solution.roundValue domain (← Numeric.ofValue raw)

/-- The duals that a value gives, as numbers; an empty one gives none. -/
def dualsOf (s : Store) (v : Value) : Except Fault (Table Quantity) := do
  if !(← s.isTrue v) then return .empty
  match v with
  | .object ⟨.dict, id⟩ =>
    return ⟨← (s.dict id).entries.mapM fun e => do return (e.1, ← Numeric.ofValue e.2)⟩
  | v => throw (v.lacks "items")

/-- Makes a result of raw values: each is read as a value of its variable's domain. -/
def resultOfRaw (problem values objectiveValue duals : Value) : Action Store Value := do
  let objective ← member problem "objective"
  let w ← variablesOf problem
  let s ← Action.read
  let primal ← .ofExcept (w.items.mapM fun v => do
    return (v, ← s.roundedBy problem v (← s.itemAt values v)))
  .ofExcept (w.finish "")
  let duals ← .ofExcept (s.dualsOf duals)
  resultOf Quantity.toValue objective
    ⟨Table.ofList primal, duals, some (.written objectiveValue)⟩

/-! ## Reading results -/

/-- What is found under a key of a dictionary, if anything. A result passes the question on. -/
def findIn (s : Store) (dictionary k : Value) : Except Fault Value := do
  match ← root (s.results.length + 1) s dictionary with
  | .object ⟨.dict, id⟩ => return .ofOption (← (s.dict id).lookup k)
  | .object ⟨.factory, _⟩ => throw (.arguments "SolverFactory.get" (.tooMany 1 1 2))
  | v => throw (v.lacks "get")

def booleanValue (s : Store) (id : Nat) (v : Value) : Except Fault Value := do
  s.differ (← s.itemAt (s.result id).primal v) (.int 0)

/-- What a value holds at the places that a dictionary gives, under the same keys. -/
def valuesAt (s : Store) (places v : Value) : Except Fault (Table Value) := do
  match places with
  | .object ⟨.dict, id⟩ =>
    return ⟨← (s.dict id).entries.mapM fun e => do return (e.1, ← s.itemAt v e.2)⟩
  | p => throw (p.lacks "items")

end Milp.Store
