import Milp.Encoding.Columnwise
import Milp.Engine.Session
import Milp.Solution

/-!
# HiGHS

The problem is given column by column. Options are set first; one that is refused is noted and
leaves the others alone. Hooks see the model that was passed. Duals are read when no variable is
integral.
-/

namespace Milp.Highs

variable {K : Type} [Numeric K]

/-- The states in which HiGHS leaves its model. -/
inductive ModelStatus where
  | notset
  | loadError
  | modelError
  | presolveError
  | solveError
  | postsolveError
  | modelEmpty
  | optimal
  | infeasible
  | unboundedOrInfeasible
  | unbounded
  | objectiveBound
  | objectiveTarget
  | timeLimit
  | iterationLimit
  | unknown
  | solutionLimit
  | interrupt
  | memoryLimit
  deriving Repr, DecidableEq

/-- The name that HiGHS has for a state. -/
def ModelStatus.name : ModelStatus → String
  | notset => "kNotset"
  | loadError => "kLoadError"
  | modelError => "kModelError"
  | presolveError => "kPresolveError"
  | solveError => "kSolveError"
  | postsolveError => "kPostsolveError"
  | modelEmpty => "kModelEmpty"
  | optimal => "kOptimal"
  | infeasible => "kInfeasible"
  | unboundedOrInfeasible => "kUnboundedOrInfeasible"
  | unbounded => "kUnbounded"
  | objectiveBound => "kObjectiveBound"
  | objectiveTarget => "kObjectiveTarget"
  | timeLimit => "kTimeLimit"
  | iterationLimit => "kIterationLimit"
  | unknown => "kUnknown"
  | solutionLimit => "kSolutionLimit"
  | interrupt => "kInterrupt"
  | memoryLimit => "kMemoryLimit"

/-- All states. -/
def ModelStatus.all : List ModelStatus :=
  [notset, loadError, modelError, presolveError, solveError, postsolveError, modelEmpty, optimal,
    infeasible, unboundedOrInfeasible, unbounded, objectiveBound, objectiveTarget, timeLimit,
    iterationLimit, unknown, solutionLimit, interrupt, memoryLimit]

def ModelStatus.ofName? (name : String) : Option ModelStatus :=
  all.find? fun s => s.name == name

/-- What a state says about the model, if anything. Where the preparation could not tell which of
the two it is, a model counts as infeasible; every limit counts as one of time. -/
def ModelStatus.outcome? : ModelStatus → Option Status
  | optimal => some .optimal
  | modelEmpty => some .optimal
  | infeasible => some .infeasible
  | unboundedOrInfeasible => some .infeasible
  | unbounded => some .unbounded
  | timeLimit => some .timeLimit
  | iterationLimit => some .timeLimit
  | solutionLimit => some .timeLimit
  | interrupt => some .timeLimit
  | objectiveBound => some .timeLimit
  | objectiveTarget => some .timeLimit
  | _ => none

/-- What HiGHS is told. -/
inductive Call (K : Type) where
  | option (name : String) (value : Value)
  | pass (model : Columnwise K)
  | run (model : Columnwise K)
  deriving Repr

/-- The options among what HiGHS is told. -/
def optionsOf (calls : List (Call K)) : List (String × Value) :=
  calls.filterMap fun c => match c with
    | .option name value => some (name, value)
    | _ => none

/-- What HiGHS answers when it is run. -/
structure Reply (K : Type) where
  failed : Bool
  modelStatus : ModelStatus
  /-- The state in words. -/
  description : String
  /-- Two when there is a feasible primal solution. -/
  primalStatus : Value
  objective : Reported K
  values : List (Reported K)
  columnDuals : List (Reported K)
  rowDuals : List (Reported K)
  dualValid : Bool

/-- HiGHS. A run answers, or breaks off with a fault. -/
structure Engine (K : Type) where
  accepts : String → Value → Bool
  acceptsModel : Columnwise K → Bool
  run : Columnwise K → Except Fault (Reply K)

/-- The options that the settings ask for, in order. -/
def generalOptions (s : Settings) : List (String × Value) :=
  [("output_flag", .bool (2 ≤ s.verbose))] ++
    (if 3 ≤ s.verbose then [("log_dev_level", .int 1)] else []) ++
    (s.timeLimit.map fun x => ("time_limit", .real x)).toList ++
    (s.gap.map fun x => ("mip_rel_gap", .real x)).toList ++
    (s.threads.map fun n => ("threads", .int n)).toList

/-- Sets an option of the engine, and notes it when it is refused. -/
def setOption (engine : Engine K) (name value : Value) : Action (Session (Call K)) Unit := do
  Session.tell (.option name.asText value)
  if !engine.accepts name.asText value then
    .note .warning (.engine .highs) ("HiGHS rejected option " ++ name.asText ++ "=" ++
      Phrase.literal value ++ " (ignored)")

/-- Sets all options. -/
def configure (engine : Engine K) (s : Settings) : Action (Session (Call K)) Unit := do
  (generalOptions s).forM fun o => Session.tell (.option o.1 o.2)
  if s.postsolve.isSome then
    .note .debug (.engine .highs) "POSTSOLVE has no HiGHS counterpart (ignored)"
  s.options.entries.forM fun o => setOption engine o.1 o.2

/-- The reduced costs by variable and the row duals by name of constraint. -/
def duals (p : Problem) (index : Index) (r : Reply K) : Except Fault (Table (Reported K)) := do
  let reduced ← index.values r.columnDuals fun _ => .indexOutOfRange "list"
  let constraints ← p.constraints.toList "name"
  Table.collect (reduced.entries ++ (constraints.map (·.name)).zip r.rowDuals)

/-- The status of a reply: a limit with a feasible solution counts as feasible. -/
def Reply.status? (r : Reply K) : Option Status :=
  r.modelStatus.outcome?.map fun s =>
    if s = .timeLimit && r.primalStatus.same (.int 2) then .feasible else s

def readSolution (p : Problem) (index : Index) (r : Reply K) : Except Fault (Solution K) := do
  let values ← index.values r.values fun _ => .indexOutOfRange "list"
  let duals ← if !p.hasIntegers index && r.dualValid then duals p index r else pure .empty
  let solution ← Solution.extract p.toDeclarations (fun v => do (← values.require v).read)
    (p.objective.bind fun _ => r.objective.given)
  solution.enterDuals duals

def solve (engine : Engine K) (hooks : Hooks (Columnwise K)) (solver : Solver) (p : Problem) :
    Action (Session (Call K)) (Option (Solution K)) := do
  let settings ← Settings.freeze solver.name solver.parameters
  Session.setStatus none
  let index := p.index
  let model ← .ofExcept (p.columnwise index)
  configure engine settings
  Session.tell (.pass model)
  if !engine.acceptsModel model then Session.fail solver.name .highsModel
  let model ← Session.runHooks "Highs" hooks index solver.hooks model
  let count ← .ofExcept p.constraints.length
  .note .debug (.engine .highs) ("Solving with HiGHS: " ++ Nat.repr index.size ++ " columns, " ++
    Nat.repr count ++ " rows")
  Session.tell (.run model)
  let reply ← .ofExcept (engine.run model)
  if reply.failed then Session.fail solver.name (.highsRun reply.description)
  match reply.status? with
  | none => Session.fail solver.name (.highsState reply.description)
  | some status =>
    Session.setStatus (some status)
    .note .debug (.engine .highs) ("HiGHS finished with status " ++ status.word)
    if !status.hasSolution then return none
    return some (← .ofExcept (readSolution p index reply))

end Milp.Highs
