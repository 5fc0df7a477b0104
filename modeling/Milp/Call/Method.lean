import Milp.Call.Collection
import Milp.Store.Result

/-!
# Calls on objects by name

Every sort of objects has its calls, each with a signature. A call that its object does not know is
the fault of a missing member, unless there is a member of that name, which then cannot be called.
-/

namespace Milp.Store

def callingOn {α : Type} (receiver name : String) (required : List String)
    (optional : List (String × Value)) (a : Arguments) (body : (Nat → Value) → Action Store α) :
    Action Store α := do
  let given ← .ofExcept (Signature.bind ⟨name, required, optional, some receiver⟩ a)
  body given

/-- Makes a call with a signature on an object. -/
def calling {α : Type} (name : String) (required : List String) (optional : List (String × Value))
    (a : Arguments) (body : (Nat → Value) → Action Store α) : Action Store α :=
  callingOn "self" name required optional a body

def silently (a : Action Store Unit) : Action Store Value := do
  a
  return .none

/-- Refuses arguments by name where there are none of that name. -/
def refuseNames (name : String) (known : List String) (a : Arguments) : Action Store Unit :=
  match a.byName.find? fun e => !known.contains e.1 with
  | some e =>
    throw (.arguments name (if e.1 = "self" then .repeated e.1 else .unexpected e.1))
  | none => pure ()

def callLinear? (id : Nat) (method : String) (a : Arguments) : Option (Action Store Value) :=
  let self : Value := .object ⟨.linear, id⟩
  match method with
  | "add" => some <| calling "Linear.add" ["coefficient", "variable"] [] a fun x => do
      addTerm id (x 0) (x 1)
      return self
  | "add_terms" => some do
      refuseNames "Linear.add_terms" [] a
      addTerms id a.inOrder
      return self
  | "clear" => some <| calling "Linear.clear" [] [] a fun _ => silently (clearLinear id)
  | "copy" => some <| calling "Linear.copy" [] [] a fun _ => copyLinear id
  | "size" => some <| calling "Linear.size" [] [] a fun _ => do
      return .int ((← Action.read).linear id).size
  | "evaluate" => some <| calling "Linear.evaluate" ["assignment"]
      [("ignore_missing", .bool false)] a fun x => do
      .ofExcept ((← Action.read).evaluate self (x 0) (x 1))
  | _ => none

def callProblem? (id : Nat) (method : String) (a : Arguments) : Option (Action Store Value) :=
  let reads (name : String) (f : Store → Value → Except Fault Value) : Action Store Value :=
    calling ("Problem." ++ name) ["variable"] [] a fun x => do
      .ofExcept (f (← Action.read) (x 0))
  let declares (required : List String) (f : (Nat → Value) → Action Declarations Unit) :
      Action Store Value :=
    calling ("Problem." ++ method) required [] a fun x => silently (onDeclarations id (f x))
  match method with
  | "set_objective" => some <| calling "Problem.set_objective" ["objective"]
      [("opt_type", .none)] a fun x => silently (setObjective id (x 0) (x 1))
  | "set_optimization_type" => some <| calling "Problem.set_optimization_type" ["opt_type"] [] a
      fun x => silently (setSense id (x 0))
  | "add" => some do
      refuseNames "Problem.add" ["name"] a
      addToProblem id a.inOrder ((a.byName.lookup "name").getD .none)
  | "get_var_type" => some <| reads method fun s v =>
      (s.domainOf id v).map fun d => .symbol (.domain d)
  | "get_var_lower_bound" => some <| reads method fun s v => s.lowerOf id v
  | "get_var_upper_bound" => some <| reads method fun s v => s.upperOf id v
  | "set_var_type" => some <| declares ["variable", "var_type"] fun x =>
      Declarations.setDomain (x 0) (x 1)
  | "set_var_lower_bound" => some <| declares ["variable", "value"] fun x =>
      Declarations.setLower (x 0) (x 1)
  | "set_var_upper_bound" => some <| declares ["variable", "value"] fun x =>
      Declarations.setUpper (x 0) (x 1)
  | "set_var_bounds" => some <| calling "Problem.set_var_bounds" ["lower", "variable", "upper"] []
      a fun x => silently (setBounds id (x 0) (x 1) (x 2))
  | "set_var_bounds_and_type" => some <| calling "Problem.set_var_bounds_and_type"
      ["lower", "variable", "upper", "var_type"] [] a fun x =>
      silently (setBoundsAndDomain id (x 0) (x 1) (x 2) (x 3))
  | _ => none

def callResult? (id : Nat) (method : String) (a : Arguments) : Option (Action Store Value) :=
  let reads (key : String) (f : Store → Value → Except Fault Value) : Action Store Value :=
    calling ("Result." ++ method) [key] [] a fun x => do .ofExcept (f (← Action.read) (x 0))
  let writes (key : String) (part : ResultObject → Value) : Action Store Value :=
    calling ("Result." ++ method) [key, "value"] [] a fun x => silently do
      setItem (part ((← Action.read).result id)) (x 0) (x 1)
  match method with
  | "get" => some <| reads "variable" fun s k => s.findIn (s.result id).primal k
  | "get_primal_value" => some <| reads "variable" fun s k => s.findIn (s.result id).primal k
  | "get_dual_value" => some <| reads "key" fun s k => s.findIn (s.result id).dual k
  | "get_boolean" => some <| reads "variable" fun s k => s.booleanValue id k
  | "contains_var" => some <| reads "variable" fun s k =>
      (s.isIn (s.result id).primal k).map .bool
  | "put" => some <| writes "variable" (·.primal)
  | "put_primal_value" => some <| writes "variable" (·.primal)
  | "put_dual_value" => some <| writes "key" (·.dual)
  | _ => none

def callParameters? (env : Environment) (s : Store) (r : Ref) (method : String) (a : Arguments) :
    Option (Action Store Value) :=
  if (s.parametersOf? r).isNone then none
  else match method with
    | "set_parameter" => some <| calling "ParameterBag.set_parameter" ["key", "value"] [] a
        fun x => silently (setParameter r (x 0) (x 1))
    | "freeze" => some <| calling "ParameterBag.freeze" ["name"] [] a fun x => freeze r (x 0)
    | "get" =>
      if r.kind = .factory then
        some <| calling "SolverFactory.get" [] [] a fun _ => solverOfFactory env r.id
      else none
    | _ => none

def callHooks? (s : Store) (r : Ref) (method : String) (a : Arguments) :
    Option (Action Store Value) :=
  if (s.hooksOf? r).isNone then none
  else match method with
    | "add_hook" => some <| calling "HookRegistry.add_hook" ["hook"] [] a fun x =>
        silently (addHook r (x 0))
    | "remove_hook" => some <| calling "HookRegistry.remove_hook" ["hook"] [] a fun x =>
        silently (removeHook r (x 0))
    | _ => none

def callSort? (target : Value) (method : String) (a : Arguments) : Option (Action Store Value) :=
  match target, method with
  | .symbol (.relation _), "parse" => some <| callingOn "cls" "Operator.parse" ["operator"] [] a
      fun x => do
      return .symbol (.relation (← .ofExcept (Relation.ofValue (x 0))))
  | .config .., "from_parameters" =>
    some <| callingOn "cls" "SolverConfig.from_parameters" ["name", "parameters"] [] a fun x =>
      configOf (x 0) (x 1)
  | _, _ => none

def callKnown? (env : Environment) (s : Store) (target : Value) (method : String)
    (a : Arguments) : Option (Action Store Value) :=
  match target, method with
  | .object ⟨.linear, id⟩, _ => callLinear? id method a
  | .object ⟨.constraint, _⟩, "size" => some <| calling "Constraint.size" [] [] a fun _ => do
      return .int (← .ofExcept ((← Action.read).length target))
  | .object ⟨.problem, id⟩, _ => callProblem? id method a
  | .object ⟨.result, id⟩, _ => callResult? id method a
  | .object ⟨.list, id⟩, _ => callList? id method a
  | .object ⟨.dict, id⟩, _ => callDict? id method a
  | .tuple xs, _ => callTuple? xs method a
  | .term v c, _ => callTuple? [v, c] method a
  | .object r, _ => callParameters? env s r method a <|> callHooks? s r method a
  | .config .., "to_pyomo_options" =>
    some <| calling "SolverConfig.to_pyomo_options" [] [] a fun _ => do
      newDict (← .ofExcept ((← Action.read).pluginOptions target))
  | _, _ => callSort? target method a

/-- What a member that was written in the place of a call gives. -/
def callWritten (v : Value) (a : Arguments) : Action Store Value :=
  match v with
  | .type t => callType t a
  | v => throw (.notCallable v.kindName)

/-- The member that was given to an object or a symbol. -/
def written? (s : Store) (target : Value) (name : String) : Option Value :=
  match target with
  | .object _ => s.extra? target name
  | .symbol _ => s.extra? target name
  | _ => none

/-- Makes a call on a value. A member that was written in the place of a call hides it, and one that
is no call is not made into one. -/
def callMember (env : Environment) (target : Value) (method : String) (a : Arguments) :
    Action Store Value := do
  let s ← Action.read
  match s.written? target method, callKnown? env s target method a with
  | some v, _ => callWritten v a
  | none, some act => act
  | none, none => callWritten (← member target method) a

/-- Makes a call on a value. What it gives is told apart from everything else. -/
def callMethod (env : Environment) (target : Value) (method : String) (a : Arguments) :
    Action Store Value :=
  raising (do distinguish (← callMember env target method a))

end Milp.Store
