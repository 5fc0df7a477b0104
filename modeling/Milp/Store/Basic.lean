import Milp.Problem.Basic

/-!
# The store

What can change has an identity: the same expression may be the left-hand side of a constraint that
two problems hold, and what is done to it is seen everywhere. The store keeps all objects, each at
its number among those of its sort, and they mention each other as values. Any part of an object can
be replaced by any value.
-/

namespace Milp

/-- The parts of a constraint. -/
structure ConstraintObject where
  lhs : Value
  operator : Value
  rhs : Value
  name : Value
  deriving Repr, Inhabited

/-- The parts of a problem. -/
structure ProblemObject extends Declarations where
  objective : Value
  sense : Value
  constraints : Value
  deriving Repr, Inhabited

/-- The values that a solve gave, or that were written by hand. The objective value is computed from
the objective when it is asked for and not there. -/
structure ResultObject where
  primal : Value
  dual : Value
  objectiveValue : Value
  objective : Value
  deriving Repr, Inhabited

/-- The result with an objective value, unless it has one. -/
def ResultObject.filled (r : ResultObject) (v : Value) : ResultObject :=
  match r.objectiveValue with
  | .none => { r with objectiveValue := v }
  | _ => r

/-- How a run of cuts ended. -/
structure OutcomeObject where
  status : Value
  assignment : Value
  objectiveValue : Value
  history : Value
  iterations : Value
  deriving Repr, Inhabited

/-- A maker of solvers, whose parameters every solver starts with. The parameters are a dictionary,
by its number. -/
structure FactoryObject where
  name : Value
  parameters : Nat
  deriving Repr, Inhabited

/-- A solver. Its parameters are a dictionary, by its number. -/
structure SolverObject where
  backend : Backend
  name : Value
  parameters : Nat
  hooks : List Value
  lastStatus : Value
  /-- The objective values of the last solve by cuts. -/
  lastHistory : Value
  deriving Repr, Inhabited

/-- A hook: it is called with a native model, and may then break off. -/
structure HookObject where
  name : String
  fault : Option Fault
  deriving Repr, Inhabited

/-- All objects, each at its number. -/
structure Store where
  lists : List (List Value)
  dicts : List (Table Value)
  linears : List Linear
  constraints : List ConstraintObject
  problems : List ProblemObject
  results : List ResultObject
  outcomes : List OutcomeObject
  /-- The numbers of the dictionaries that hold the parameters of bags. -/
  bags : List Nat
  registries : List (List Value)
  factories : List FactoryObject
  solvers : List SolverObject
  hooks : List HookObject
  /-- The number of values that have been told apart from others of the same look. -/
  toldApart : Nat
  /-- Members that were given to values besides those of their sort. -/
  extras : List ((Key × String) × Value)
  /-- The hooks that were called, each with the columns that it was given. -/
  hookCalls : List (String × List (Value × Value))

namespace Store

/-- The store without objects. -/
def empty : Store := ⟨[], [], [], [], [], [], [], [], [], [], [], [], 0, [], []⟩

instance : Inhabited Store := ⟨empty⟩

/-! ## Reading -/

def list (s : Store) (id : Nat) : List Value := s.lists[id]?.getD []

/-- The dictionary with a number. -/
def dict (s : Store) (id : Nat) : Table Value := s.dicts[id]?.getD .empty

/-- The expression with a number. -/
def linear (s : Store) (id : Nat) : Linear := s.linears[id]?.getD .empty

def constraint (s : Store) (id : Nat) : ConstraintObject := s.constraints[id]?.getD default

def problem (s : Store) (id : Nat) : ProblemObject := s.problems[id]?.getD default

def result (s : Store) (id : Nat) : ResultObject := s.results[id]?.getD default

def outcome (s : Store) (id : Nat) : OutcomeObject := s.outcomes[id]?.getD default

def registry (s : Store) (id : Nat) : List Value := s.registries[id]?.getD []

def factory (s : Store) (id : Nat) : FactoryObject := s.factories[id]?.getD default

def solver (s : Store) (id : Nat) : SolverObject := s.solvers[id]?.getD default

def hook (s : Store) (id : Nat) : HookObject := s.hooks[id]?.getD default

/-- The dictionary that holds the parameters of an object, if it has any. -/
def parametersOf? (s : Store) (r : Ref) : Option Nat :=
  match r.kind with
  | .bag => s.bags[r.id]?
  | .factory => some (s.factory r.id).parameters
  | .solver _ => some (s.solver r.id).parameters
  | _ => none

/-- The hooks that an object holds, if it can. -/
def hooksOf? (s : Store) (r : Ref) : Option (List Value) :=
  match r.kind with
  | .registry => some (s.registry r.id)
  | .solver _ => some (s.solver r.id).hooks
  | _ => none

def extra? (s : Store) (v : Value) (name : String) : Option Value :=
  s.extras.lookup (v.key, name)

/-! ## Telling values apart -/

/-- A number that no value has been told apart by yet. -/
def newIdentity : Action Store Nat := do
  let s ← Action.read
  .update fun s => { s with toldApart := s.toldApart + 1 }
  return s.toldApart

/-- An undefined number of a form, told apart from all others. -/
def newUndefined (form : FloatForm) : Action Store Value := do
  return .undefined form (← newIdentity)

/-- What tells an array from others. -/
def identityOf : Option Nat → Action Store (Option Nat)
  | some id => return some id
  | none => some <$> newIdentity

mutual

/-- The value with everything in it told apart that another of the same look would not be: undefined
numbers, arrays and matrices. -/
def distinguish : Value → Action Store Value
  | .real x => if x.isNaN then newUndefined .free else return .real x
  | .scalar (.single x) =>
    if x.isNaN then newUndefined .single else return .scalar (.single x)
  | .scalar (.double x) =>
    if x.isNaN then newUndefined .double else return .scalar (.double x)
  | .array g => do return .array { g with id := ← identityOf g.id }
  | .sparse m => do return .sparse { m with id := ← identityOf m.id }
  | .tuple xs => do return .tuple (← distinguishAll xs)
  | .term v c => do return .term (← distinguish v) (← distinguish c)
  | .config a b c d e f g => do
    return .config (← distinguish a) (← distinguish b) (← distinguish c) (← distinguish d)
      (← distinguish e) (← distinguish f) (← distinguish g)
  | v => return v

/-- Values, each told apart. -/
def distinguishAll : List Value → Action Store (List Value)
  | [] => return []
  | v :: vs => do return (← distinguish v) :: (← distinguishAll vs)

end

/-! ## Adding -/

def newList (xs : List Value) : Action Store Value := do
  let xs ← distinguishAll xs
  let s ← Action.read
  .update fun s => { s with lists := s.lists ++ [xs] }
  return .object ⟨.list, s.lists.length⟩

/-- Adds a dictionary, and gives its number. -/
def addDict (t : Table Value) : Action Store Nat := do
  let keys ← distinguishAll t.keys
  let values ← distinguishAll (t.entries.map (·.2))
  let t : Table Value := ⟨keys.zip values⟩
  let s ← Action.read
  .update fun s => { s with dicts := s.dicts ++ [t] }
  return s.dicts.length

/-- Adds a dictionary. -/
def newDict (t : Table Value) : Action Store Value := do
  return .object ⟨.dict, ← addDict t⟩

/-- Adds an expression. -/
def newLinear (l : Linear) : Action Store Value := do
  let s ← Action.read
  .update fun s => { s with linears := s.linears ++ [l] }
  return .object ⟨.linear, s.linears.length⟩

def newConstraint (c : ConstraintObject) : Action Store Value := do
  let s ← Action.read
  .update fun s => { s with constraints := s.constraints ++ [c] }
  return .object ⟨.constraint, s.constraints.length⟩

/-- Adds a problem without any data. -/
def newProblem : Action Store Value := do
  let constraints ← newList []
  let s ← Action.read
  let p : ProblemObject :=
    { Declarations.empty with
      objective := .none, sense := .symbol (.sense .min), constraints := constraints }
  .update fun s => { s with problems := s.problems ++ [p] }
  return .object ⟨.problem, s.problems.length⟩

def newResult (primal dual : Table Value) (objectiveValue objective : Value) :
    Action Store Value := do
  let primal ← newDict primal
  let dual ← newDict dual
  let objectiveValue ← distinguish objectiveValue
  let s ← Action.read
  .update fun s => { s with results := s.results ++ [⟨primal, dual, objectiveValue, objective⟩] }
  return .object ⟨.result, s.results.length⟩

/-- Adds the outcome of a run of cuts. -/
def newOutcome (o : OutcomeObject) : Action Store Value := do
  let s ← Action.read
  .update fun s => { s with outcomes := s.outcomes ++ [o] }
  return .object ⟨.outcome, s.outcomes.length⟩

def newBag (parameters : Table Value) : Action Store Value := do
  let d ← addDict parameters
  let s ← Action.read
  .update fun s => { s with bags := s.bags ++ [d] }
  return .object ⟨.bag, s.bags.length⟩

/-- Adds an empty registry of hooks. -/
def newRegistry : Action Store Value := do
  let s ← Action.read
  .update fun s => { s with registries := s.registries ++ [[]] }
  return .object ⟨.registry, s.registries.length⟩

def newFactory (name : Value) (parameters : Table Value) : Action Store Value := do
  let d ← addDict parameters
  let s ← Action.read
  .update fun s => { s with factories := s.factories ++ [⟨name, d⟩] }
  return .object ⟨.factory, s.factories.length⟩

/-- Adds a solver without parameters and hooks. -/
def newSolver (backend : Backend) (name : Value) : Action Store Value := do
  let d ← addDict .empty
  let history ← newList []
  let s ← Action.read
  .update fun s =>
    { s with solvers := s.solvers ++ [⟨backend, name, d, [], .none, history⟩] }
  return .object ⟨.solver backend, s.solvers.length⟩

/-- The hook with a name, which is added if it is new. -/
def hookNamed (name : String) : Action Store Value := do
  let s ← Action.read
  match s.hooks.findIdx? (·.name == name) with
  | some id => return .object ⟨.hook, id⟩
  | none =>
    .update fun s => { s with hooks := s.hooks ++ [⟨name, none⟩] }
    return .object ⟨.hook, s.hooks.length⟩

/-! ## Acting on one object -/

def changeList (id : Nat) (f : List Value → List Value) : Action Store Unit :=
  .update fun s => { s with lists := s.lists.modify id f }

/-- Changes a dictionary. -/
def changeDict (id : Nat) (f : Table Value → Table Value) : Action Store Unit :=
  .update fun s => { s with dicts := s.dicts.modify id f }

/-- Changes an expression. -/
def changeLinear (id : Nat) (f : Linear → Linear) : Action Store Unit :=
  .update fun s => { s with linears := s.linears.modify id f }

def changeConstraint (id : Nat) (f : ConstraintObject → ConstraintObject) : Action Store Unit :=
  .update fun s => { s with constraints := s.constraints.modify id f }

def changeProblem (id : Nat) (f : ProblemObject → ProblemObject) : Action Store Unit :=
  .update fun s => { s with problems := s.problems.modify id f }

def changeResult (id : Nat) (f : ResultObject → ResultObject) : Action Store Unit :=
  .update fun s => { s with results := s.results.modify id f }

def changeOutcome (id : Nat) (f : OutcomeObject → OutcomeObject) : Action Store Unit :=
  .update fun s => { s with outcomes := s.outcomes.modify id f }

def changeFactory (id : Nat) (f : FactoryObject → FactoryObject) : Action Store Unit :=
  .update fun s => { s with factories := s.factories.modify id f }

def changeSolver (id : Nat) (f : SolverObject → SolverObject) : Action Store Unit :=
  .update fun s => { s with solvers := s.solvers.modify id f }

def changeHooks (r : Ref) (f : List Value → List Value) : Action Store Unit :=
  match r.kind with
  | .registry => .update fun s => { s with registries := s.registries.modify r.id f }
  | .solver _ => changeSolver r.id fun x => { x with hooks := f x.hooks }
  | _ => pure ()

/-- An action on what a problem knows of variables. -/
def onDeclarations {α : Type} (id : Nat) (a : Action Declarations α) : Action Store α :=
  .onPart (fun s => (s.problem id).toDeclarations)
    (fun d s => { s with
      problems := s.problems.modify id fun p => { p with toDeclarations := d } }) a

def setHookFault (hook : Value) (fault : Option Fault) : Action Store Unit :=
  match hook with
  | .object ⟨.hook, id⟩ =>
    .update fun s => { s with hooks := s.hooks.modify id fun h => { h with fault := fault } }
  | _ => pure ()

def recordHookCall (hook : String) (columns : List (Value × Value)) : Action Store Unit :=
  .update fun s => { s with hookCalls := s.hookCalls ++ [(hook, columns)] }

end Store

end Milp
