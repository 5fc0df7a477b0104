import Milp.Store.Parameters
import Milp.Store.Problem

/-!
# Members by name

Records can be read and written part by part. Some members are computed whenever they are read and
cannot be written; settings cannot be written at all; and an object or a symbol takes any member
that its sort does not know.
-/

namespace Milp.Store

/-! ## Reading -/

/-- Members of symbols: what it is called, what it stands for, and the other symbols of its
vocabulary. -/
def symbolMember? (x : Symbol) (name : String) : Option Value :=
  match x, name with
  | x, "name" => some (.text x.name)
  | x, "value" => some x.value
  | .domain d, "is_int" => some (.bool d.isInt)
  | .status st, "has_solution" => some (.bool st.hasSolution)
  | x, name => (Symbol.ofFullName? (x.family ++ "." ++ name)).map .symbol

/-- The member of an object that is there to be read. -/
def storedMember? (s : Store) (r : Ref) (name : String) : Option Value :=
  match r.kind, name with
  | .constraint, "lhs" => some (s.constraint r.id).lhs
  | .constraint, "operator" => some (s.constraint r.id).operator
  | .constraint, "rhs" => some (s.constraint r.id).rhs
  | .constraint, "name" => some (s.constraint r.id).name
  | .problem, "objective" => some (s.problem r.id).objective
  | .problem, "opt_type" => some (s.problem r.id).sense
  | .problem, "constraints" => some (s.problem r.id).constraints
  | .problem, "variables_count" => some (.int (s.problem r.id).vars.size)
  | .result, "primal" => some (s.result r.id).primal
  | .result, "dual" => some (s.result r.id).dual
  | .result, "objective_value" => some (s.result r.id).objectiveValue
  | .result, "objective_expr" => some (s.result r.id).objective
  | .outcome, "status" => some (s.outcome r.id).status
  | .outcome, "assignment" => some (s.outcome r.id).assignment
  | .outcome, "objective_value" => some (s.outcome r.id).objectiveValue
  | .outcome, "history" => some (s.outcome r.id).history
  | .outcome, "iterations" => some (s.outcome r.id).iterations
  | .factory, "name" => some (s.factory r.id).name
  | .solver _, "name" => some (s.solver r.id).name
  | .solver _, "last_status" => some (s.solver r.id).lastStatus
  | .solver .cpsat, "last_history" => some (s.solver r.id).lastHistory
  | _, "parameters" => (s.parametersOf? r).map fun d => .object ⟨.dict, d⟩
  | _, _ => none

def listMember? (s : Store) (r : Ref) (name : String) : Option (List Value) :=
  match r.kind, name with
  | .linear, "coefficients" => some (s.linear r.id).coefficients
  | .linear, "variables" => some (s.linear r.id).vars
  | .problem, "variables" => some (s.problem r.id).variableList
  | _, "hooks" => s.hooksOf? r
  | _, _ => none

/-- The member that was given to an object or a symbol. -/
def extraMember (v : Value) (name : String) : Action Store Value := do
  match (← Action.read).extra? v name with
  | some w => return w
  | none => throw (v.lacks name)

def objectMember (r : Ref) (name : String) : Action Store Value := do
  let s ← Action.read
  match r.kind, name with
  | .result, "objective" => objectiveOf r.id
  | .problem, "constraints_count" =>
    return .int (← .ofExcept (s.length (s.problem r.id).constraints))
  | _, _ =>
    match s.storedMember? r name, s.listMember? r name with
    | some v, _ => return v
    | none, some xs => newList xs
    | none, none => extraMember (.object r) name

/-- Reads a member of a symbol. What it was given hides the other symbols. -/
def symbolMember (x : Symbol) (name : String) : Action Store Value := do
  match (← Action.read).extra? (.symbol x) name, symbolMember? x name with
  | some v, _ => return v
  | none, some v => return v
  | none, none => throw ((Value.symbol x).lacks name)

def member (v : Value) (name : String) : Action Store Value := do
  match v with
  | .object r => objectMember r name
  | .term a c =>
    match name with
    | "variable" => return a
    | "coefficient" => return c
    | name => throw (v.lacks name)
  | .symbol x => symbolMember x name
  | .config a b c d e f g =>
    match (settingsFields.zip [a, b, c, d, e, f, g]).lookup name with
    | some w => return w
    | none => throw (v.lacks name)
  | v => throw (v.lacks name)

def variablesOf (v : Value) : Action Store (Series Value) := do
  let s ← Action.read
  match v with
  | .object ⟨.problem, id⟩ => return .ofList (s.problem id).variableList
  | .object ⟨.linear, id⟩ => return .ofList (s.linear id).vars
  | v => do
    let vars ← member v "variables"
    return (← Action.read).walk vars

/-- Reads a member of every part of a value in order. -/
def memberOfAll (v : Value) (name : String) : Action Store (List Value) := do
  let w := (← Action.read).walk v
  let found ← w.items.mapM fun x => member x name
  .ofExcept (w.finish name)
  return found

/-! ## Writing -/

def computedMembers : ObjectKind → List String
  | .linear => ["coefficients", "variables"]
  | .problem => ["variables", "variables_count", "constraints_count"]
  | .result => ["objective"]
  | .bag => ["parameters"]
  | .factory => ["parameters"]
  | .registry => ["hooks"]
  | .solver _ => ["parameters", "hooks"]
  | _ => []

/-- Writes a member of an object that its sort knows, if it is one. -/
def writeKnown? (r : Ref) (name : String) (v : Value) : Option (Action Store Unit) :=
  match r.kind, name with
  | .constraint, "lhs" => some (changeConstraint r.id fun c => { c with lhs := v })
  | .constraint, "operator" => some (changeConstraint r.id fun c => { c with operator := v })
  | .constraint, "rhs" => some (changeConstraint r.id fun c => { c with rhs := v })
  | .constraint, "name" => some (changeConstraint r.id fun c => { c with name := v })
  | .problem, "objective" => some (changeProblem r.id fun p => { p with objective := v })
  | .problem, "opt_type" => some (changeProblem r.id fun p => { p with sense := v })
  | .problem, "constraints" => some (changeProblem r.id fun p => { p with constraints := v })
  | .result, "primal" => some (changeResult r.id fun x => { x with primal := v })
  | .result, "dual" => some (changeResult r.id fun x => { x with dual := v })
  | .result, "objective_value" => some (changeResult r.id fun x => { x with objectiveValue := v })
  | .result, "objective_expr" => some (changeResult r.id fun x => { x with objective := v })
  | .outcome, "status" => some (changeOutcome r.id fun o => { o with status := v })
  | .outcome, "assignment" => some (changeOutcome r.id fun o => { o with assignment := v })
  | .outcome, "objective_value" =>
    some (changeOutcome r.id fun o => { o with objectiveValue := v })
  | .outcome, "history" => some (changeOutcome r.id fun o => { o with history := v })
  | .outcome, "iterations" => some (changeOutcome r.id fun o => { o with iterations := v })
  | .factory, "name" => some (changeFactory r.id fun f => { f with name := v })
  | .solver _, "name" => some (changeSolver r.id fun x => { x with name := v })
  | .solver _, "last_status" => some (changeSolver r.id fun x => { x with lastStatus := v })
  | .solver .cpsat, "last_history" => some (changeSolver r.id fun x => { x with lastHistory := v })
  | _, _ => none

/-- Gives a value a member that its sort does not know. -/
def giveExtra (target : Value) (name : String) (v : Value) : Action Store Unit :=
  .update fun s => { s with extras := ((target.key, name), v) :: s.extras }

def setObjectMember (r : Ref) (name : String) (v : Value) : Action Store Unit := do
  if (computedMembers r.kind).contains name then throw (.readOnly r.kind.name name)
  if r.kind = .list || r.kind = .dict then throw ((Value.object r).lacks name)
  match writeKnown? r name v with
  | some write => write
  | none => giveExtra (.object r) name v

/-- Writes a member of a symbol. What makes it what it is, and what follows from that, stays. -/
def setSymbolMember (x : Symbol) (name : String) (v : Value) : Action Store Unit := do
  match x, name with
  | _, "name" => throw (.frozenSymbol name)
  | _, "value" => throw (.frozenSymbol name)
  | .domain _, "is_int" => throw (.readOnly x.family name)
  | .status _, "has_solution" => throw (.readOnly x.family name)
  | x, name => giveExtra (.symbol x) name v

def setMember (target : Value) (name : String) (v : Value) : Action Store Unit := do
  match target with
  | .object r => setObjectMember r name v
  | .symbol x => setSymbolMember x name v
  | .type t => throw (.frozenType t.name name)
  | .config .. => throw (.frozenField name)
  | .term _ _ => throw (if name = "variable" || name = "coefficient" then .frozenTerm
      else target.lacks name)
  | target => throw (target.lacks name)

end Milp.Store
