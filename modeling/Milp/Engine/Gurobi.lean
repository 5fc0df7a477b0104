import Milp.Encoding.Incremental
import Milp.Engine.Session
import Milp.Solution

/-!
# Gurobi

Every solve opens an environment and a model of its own, and closes both however it ends. Any stage
of the work may break off; a fault of the engine's own class is its failure, any other is passed on.
-/

namespace Milp.Gurobi

variable {K : Type} [Numeric K]

/-- The stages at which the engine may break off. -/
inductive Stage where
  | environment
  | start
  | model
  | update
  | optimize
  | parameter (name : String)
  deriving Repr, DecidableEq

def Stage.name : Stage → String
  | environment => "Env"
  | start => "start"
  | model => "Model"
  | update => "update"
  | optimize => "optimize"
  | parameter name => name

def domainLetter : Domain → String
  | .real => "C"
  | .int => "I"
  | .bool => "B"

def relationSign : Relation → String
  | .le => "<"
  | .ge => ">"
  | .eq => "="

def senseNumber : Sense → Int
  | .min => 1
  | .max => -1

/-- Which of the two a parameter is set on. -/
inductive Target where
  | environment
  | model
  deriving Repr, DecidableEq

/-- What Gurobi is told. -/
inductive Call (K : Type) where
  | stage (s : Stage)
  | set (target : Target) (name : String) (value : Value)
  | addVariable (v : PieceVariable K)
  | addRow (r : PieceRow K)
  | setObjective (o : PieceObjective K)
  | closeModel
  | closeEnvironment
  deriving Repr

/-- The pieces that were handed over among what Gurobi is told. -/
def handedOver (calls : List (Call K)) : Incremental K :=
  calls.foldl (fun m c => match c with
    | .addVariable v => { m with vars := m.vars ++ [v] }
    | .addRow r => { m with rows := m.rows ++ [r] }
    | .setObjective o => { m with objective := some o }
    | _ => m) ⟨[], [], none⟩

/-- What Gurobi answers when it has optimised. -/
structure Reply (K : Type) where
  code : Value
  /-- The number of solutions that were found. -/
  solutions : Value
  /-- The model has integral variables. -/
  mixed : Bool
  objective : Reported K
  value : Nat → Reported K
  reducedCost : Nat → Reported K
  rowDual : Nat → Reported K

/-- Gurobi: stages that break off, and an answer. -/
structure Engine (K : Type) where
  breaksOff : Stage → Option Fault
  optimize : Incremental K → Reply K

def wholeCode? (code : Value) : Option Int :=
  match code.key with
  | .number q => if isWhole q then some q.num else none
  | _ => none

/-- What a code says about the model, if anything; every limit counts as one of time. -/
def outcome? (code : Value) : Option Status :=
  match wholeCode? code with
  | some 2 => some .optimal
  | some 13 => some .feasible
  | some 3 => some .infeasible
  | some 4 => some .infeasible
  | some 5 => some .unbounded
  | some 6 => some .infeasible
  | some 7 => some .timeLimit
  | some 8 => some .timeLimit
  | some 9 => some .timeLimit
  | some 10 => some .timeLimit
  | some 11 => some .timeLimit
  | _ => none

/-- A fault of the engine's own class. -/
def isOwn (f : Fault) : Bool :=
  match f with
  | .raised cls _ => cls == "GurobiError"
  | _ => false

def stage (engine : Engine K) (s : Stage) : Action (Session (Call K)) Unit := do
  Session.tell (.stage s)
  match engine.breaksOff s with
  | some f => throw f
  | none => pure ()

def setParameter (engine : Engine K) (target : Target) (name : String) (value : Value) :
    Action (Session (Call K)) Unit := do
  Session.tell (.set target name value)
  match engine.breaksOff (.parameter name) with
  | some f => throw f
  | none => pure ()

/-- Does something, and then a last thing however that ended. -/
def closing {ν α : Type} (a : Action (Session ν) α) (last : Action (Session ν) Unit) :
    Action (Session ν) α := do
  try
    let x ← a
    last
    return x
  catch f =>
    last
    throw f

def build (engine : Engine K) (p : Problem) (index : Index) :
    Action (Session (Call K)) (Incremental K) := do
  let vars ← index.entries.mapM fun e => do
    let v ← .ofExcept (Incremental.variableOf p e)
    Session.tell (.addVariable v)
    return v
  let rows ← p.constraints.items.zipIdx.mapM fun c => do
    let r ← .ofExcept (Incremental.rowOf index c)
    Session.tell (.addRow r)
    return r
  .ofExcept (p.constraints.finish "lhs")
  let objective ← match p.objective with
    | none => pure none
    | some o => do
      let terms ← .ofExcept (Incremental.termsOf index o)
      let piece : PieceObjective K := ⟨terms, p.sense⟩
      Session.tell (.setObjective piece)
      pure (some piece)
  stage engine .update
  return ⟨vars, rows, objective⟩

/-- Sets the parameters of the model. -/
def configure (engine : Engine K) (s : Settings) : Action (Session (Call K)) Unit := do
  let general : List (String × Value) :=
    (s.timeLimit.map fun x => ("TimeLimit", .real x)).toList ++
    (s.gap.map fun x => ("MIPGap", .real x)).toList ++
    (s.threads.map fun n => ("Threads", .int n)).toList ++
    (if 3 ≤ s.verbose then [("DisplayInterval", .int 1)] else [])
  general.forM fun o => setParameter engine .model o.1 o.2
  if s.postsolve.isSome then
    .note .debug (.engine .gurobi) "POSTSOLVE has no Gurobi counterpart (ignored)"
  s.options.entries.forM fun o => setParameter engine .model o.1.asText o.2

/-- The status of a reply: a limit with a solution counts as feasible. -/
def Reply.status? (r : Reply K) : Except Fault (Option Status) := do
  r.code.checkKey
  match outcome? r.code with
  | some .timeLimit =>
    return some (if ← r.solutions.isAbove (.int 0) then .feasible else .timeLimit)
  | s => return s

/-- The reduced costs by variable and the row duals by name of constraint. -/
def duals (p : Problem) (index : Index) (r : Reply K) : Except Fault (Table (Reported K)) :=
  Table.collect (index.entries.map (fun e => (e.1, r.reducedCost e.2.toNat)) ++
    p.constraints.items.zipIdx.map fun (c, i) => (c.name, r.rowDual i))

def readReply (engine : Value) (p : Problem) (index : Index) (r : Reply K) :
    Action (Session (Call K)) (Option (Solution K)) := do
  match ← .ofExcept r.status? with
  | none => Session.fail engine (.gurobiCode r.code)
  | some status =>
    Session.setStatus (some status)
    .note .debug (.engine .gurobi) ("Gurobi finished with status " ++ status.word)
    if !status.hasSolution then return none
    let raw (v : Value) : Except Fault K := do (r.value (← index.require v).toNat).read
    let objective := p.objective.bind fun _ => r.objective.given
    let duals ← if r.mixed then pure .empty else .ofExcept (duals p index r)
    let solution ← .ofExcept (Solution.extract p.toDeclarations raw objective)
    return some (← .ofExcept (solution.enterDuals duals))

def onModel (engine : Engine K) (hooks : Hooks (Incremental K)) (solver : Solver)
    (s : Settings) (p : Problem) (index : Index) :
    Action (Session (Call K)) (Option (Solution K)) := do
  let model ← build engine p index
  configure engine s
  let model ← Session.runHooks "Model" hooks index solver.hooks model
  stage engine .optimize
  readReply solver.name p index (engine.optimize model)

/-- Opens a model in an open environment for some work on it. -/
def inEnvironment {α : Type} (engine : Engine K) (s : Settings)
    (work : Action (Session (Call K)) α) : Action (Session (Call K)) α := do
  setParameter engine .environment "OutputFlag" (.int (if 2 ≤ s.verbose then 1 else 0))
  stage engine .start
  stage engine .model
  closing work (Session.tell .closeModel)

/-- Opens an environment and a model for some work on it. Both are closed however that ends. -/
def opening {α : Type} (engine : Engine K) (solver : Solver)
    (work : Settings → Action (Session (Call K)) α) : Action (Session (Call K)) α := do
  let settings ← Settings.freeze solver.name solver.parameters
  Session.setStatus none
  try
    stage engine .environment
    closing (inEnvironment engine settings (work settings)) (Session.tell .closeEnvironment)
  catch f =>
    if isOwn f then Session.fail solver.name (.gurobiRun f) else throw f

def solve (engine : Engine K) (hooks : Hooks (Incremental K)) (solver : Solver) (p : Problem) :
    Action (Session (Call K)) (Option (Solution K)) :=
  opening engine solver fun settings => onModel engine hooks solver settings p p.index

end Milp.Gurobi
