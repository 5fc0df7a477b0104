import Milp.Encoding.Symbolic
import Milp.Engine.Session
import Milp.Solution
import Milp.Value.Arithmetic

/-!
# Pyomo

The problem is restated in symbols and handed to a plugin that drives the engine and reads the
numbers off. A plugin may leave variables without a value that no row mentions; they are given the
value nearest to zero that their bounds allow.
-/

namespace Milp.Pyomo

variable {K : Type} [Numeric K]

/-- The conditions in which a plugin ends. -/
inductive Condition where
  | optimal
  | globallyOptimal
  | locallyOptimal
  | feasible
  | maxTimeLimit
  | maxIterations
  | maxEvaluations
  | minStepLength
  | intermediateNonInteger
  | userInterrupt
  | infeasible
  | infeasibleOrUnbounded
  | unbounded
  | noSolution
  /-- A condition that says nothing about the model, by its name. -/
  | other (name : String)
  deriving Repr, DecidableEq

def Condition.name : Condition → String
  | optimal => "optimal"
  | globallyOptimal => "globallyOptimal"
  | locallyOptimal => "locallyOptimal"
  | feasible => "feasible"
  | maxTimeLimit => "maxTimeLimit"
  | maxIterations => "maxIterations"
  | maxEvaluations => "maxEvaluations"
  | minStepLength => "minStepLength"
  | intermediateNonInteger => "intermediateNonInteger"
  | userInterrupt => "userInterrupt"
  | infeasible => "infeasible"
  | infeasibleOrUnbounded => "infeasibleOrUnbounded"
  | unbounded => "unbounded"
  | noSolution => "noSolution"
  | other name => name

/-- The conditions that say something about the model. -/
def Condition.telling : List Condition :=
  [optimal, globallyOptimal, locallyOptimal, feasible, maxTimeLimit, maxIterations, maxEvaluations,
    minStepLength, intermediateNonInteger, userInterrupt, infeasible, infeasibleOrUnbounded,
    unbounded, noSolution]

def Condition.ofName (name : String) : Condition :=
  (telling.find? fun c => c.name == name).getD (.other name)

/-- What a condition says about the model, if anything; every limit counts as one of time. -/
def Condition.outcome? : Condition → Option Status
  | optimal => some .optimal
  | globallyOptimal => some .optimal
  | locallyOptimal => some .optimal
  | feasible => some .feasible
  | maxTimeLimit => some .timeLimit
  | maxIterations => some .timeLimit
  | maxEvaluations => some .timeLimit
  | minStepLength => some .timeLimit
  | intermediateNonInteger => some .timeLimit
  | userInterrupt => some .timeLimit
  | infeasible => some .infeasible
  | infeasibleOrUnbounded => some .infeasible
  | unbounded => some .unbounded
  | noSolution => some .unknown
  | other _ => none

/-- What the plugin is told. -/
inductive Call (K : Type) where
  | build (model : Symbolic K)
  | plugin (name : Value)
  | option (name : String) (value : Value)
  | solve (output : Bool)
  | read (model : PluginModel K)
  deriving Repr

/-- The options among what the plugin is told. -/
def optionsOf (calls : List (Call K)) : List (String × Value) :=
  calls.filterMap fun c => match c with
    | .option name value => some (name, value)
    | _ => none

def pluginsOf (calls : List (Call K)) : List Value :=
  calls.filterMap fun c => match c with
    | .plugin name => some name
    | _ => none

def domainName : Domain → String
  | .real => "Reals"
  | .int => "Integers"
  | .bool => "Binary"

/-- What the plugin answers. -/
structure Reply (K : Type) where
  condition : Condition
  /-- The number of solutions that come with the answer. -/
  solutions : Nat
  /-- The value of each column, where the plugin has one. -/
  values : List (Option Value)
  /-- Duals by number of row. -/
  duals : List (Nat × Reported K)

/-- A plugin: it solves, or breaks off. -/
structure Engine (K : Type) where
  available : Value → Except Fault Bool
  solve : PluginModel K → Except Fault (Reply K)

/-- A fault by which a plugin says that the program behind it failed. -/
def isProgramFailure (f : Fault) : Bool :=
  match f with
  | .raised cls _ => cls == "ApplicationError"
  | _ => false

/-- The number nearest to zero within bounds, the upper one having the last word. -/
def nearestZero (b : Bounds K) : K :=
  let raised := match b.lower with
    | some l => Numeric.max Numeric.zero l
    | none => Numeric.zero
  match b.upper with
  | some u => Numeric.min raised u
  | none => raised

/-- The value nearest to zero within bounds that were written in any way, of which arrays see what
they are given to see; a bound that is chosen stays as it was written. -/
def valueWithin (spread : Value → Except Fault Spread) (b : Bounds Value) : Except Fault Value := do
  let raised ← match b.lower with
    | some l => do
      if ← Order.above.holdsBy spread l (.real 0.0) then pure l else pure (.real 0.0)
    | none => pure (.real 0.0)
  match b.upper with
  | some u => if ← Order.below.holdsBy spread u raised then return u else return raised
  | none => return raised

/-- The value that the plugin has for a column, if it has one: a number or a text. -/
def valueOf? (r : Reply K) (j : Nat) : Except Fault (Option Value) :=
  match r.values[j]? with
  | some (some (.text t)) => .ok (some (.text t))
  | some (some v) =>
    if v.number?.isSome then .ok (some v) else .error (.unknownKind v.bareKindName)
  | _ => .ok none

/-- The value of a column, by the plugin or within its bounds. -/
def columnValue (m : PluginModel K) (r : Reply K) (j : Nat) : Except Fault K := do
  match ← valueOf? r j, m.vars[j]? with
  | some v, _ => Numeric.ofValue v
  | none, some v => return nearestZero v.bounds
  | none, none => throw (.placeOutOfRange j 0 m.vars.length)

/-! ## The objective -/

/-- The product of a coefficient and a value; a coefficient of one leaves the value as it is. -/
def product? (value : K → Value) (c : Number K) (v : Value) : Option Value :=
  let c := c.toValue value
  if c.same (.int 1) then some v else c.times? v

/-- The sum of values, from left to right beginning with the first. -/
def total? : List Value → Option Value
  | [] => some (.int 0)
  | v :: vs => vs.foldlM (fun s v => s.plus? v) v

/-- The objective over the values of the plugin; nothing when one of them is missing or they do not
add up. Coefficients take part as values. -/
def objectiveValue? (value : K → Value) (m : Symbolic K) (r : Reply K) : Option Value := do
  let products ← m.objective.mapM fun t => do
    product? value t.2 (← (← r.values[t.1]?))
  total? products

/-! ## Solving -/

def duals (p : Problem) (m : PluginModel K) (r : Reply K) : Except Fault (Table (Reported K)) :=
  if m.duals then
    Table.collect (p.constraints.items.zipIdx.filterMap fun (c, i) =>
      if m.rows.any (·.number == i) then
        (r.duals.find? fun d => d.1 == i).map fun d => (c.name, d.2)
      else none)
  else .ok .empty

/-- The status of a reply: a limit with a solution counts as feasible. -/
def Reply.status? (r : Reply K) : Option Status :=
  r.condition.outcome?.map fun s =>
    if s = .timeLimit && 0 < r.solutions then .feasible else s

/-- Takes over what a reply brings for the model (`model.solutions.load_from`): duals are entered in
`model.dual`, which is declared only where `PluginModel.duals` is set. -/
def checkDuals (m : PluginModel K) (r : Reply K) : Except Fault Unit :=
  if !r.duals.isEmpty && !m.duals then .error (.noAttribute "ConcreteModel" "dual") else .ok ()

def readSolution (value : K → Value) (p : Problem) (index : Index) (stated : Symbolic K)
    (m : PluginModel K) (r : Reply K) : Except Fault (Solution K) := do
  checkDuals m r
  let _ ← index.entries.mapM fun e => valueOf? r e.2.toNat
  let objective := p.objective.bind fun _ => objectiveValue? value stated r
  let raw (v : Value) : Except Fault K := do columnValue m r (← index.require v).toNat
  let duals ← duals p m r
  let solution ← Solution.extract p.toDeclarations raw (objective.map .written)
  solution.enterDuals duals

/-- Finds the plugin and makes sure that it can be used. -/
def findPlugin (env : Environment) (engine : Engine K) (name : Value) :
    Action (Session (Call K)) Unit := do
  match Discovery.persistent? name with
  | some p => Session.tell (.plugin (.text p))
  | none => pure ()
  let asked : Environment := { env with plugin := fun p => engine.available (.text p) }
  let plugin ← Discovery.pluginName asked name
  Session.tell (.plugin plugin)
  if !(← .ofExcept (engine.available plugin)) then
    let usable ← Discovery.usable env
    throw (.unavailable (.notUsable name usable))

/-- Sets the options of the plugin. -/
def configure (s : Settings) : Action (Session (Call K)) Unit := do
  s.pluginOptions.entries.forM fun o => Session.tell (.option o.1.asText o.2)
  if s.postsolve.isSome then
    .note .debug (.engine .pyomo) "POSTSOLVE has no Pyomo counterpart (ignored)"

/-- Lets the plugin solve a model, which it reads first; a failure of the program behind it sets the
status. -/
def ask (engine : Engine K) (name : Value) (m : Symbolic K) (output : Bool) :
    Action (Session (Call K)) (PluginModel K × Reply K) := do
  Session.tell (.solve output)
  let model ← .ofExcept m.read
  Session.tell (.read model)
  match engine.solve model with
  | .ok r => return (model, r)
  | .error f =>
    if isProgramFailure f then Session.fail name (.plugin name f) else throw f

/-- Solves a problem with a plugin. Numbers are written as values by a given writer. -/
def solve (value : K → Value) (env : Environment) (engine : Engine K) (hooks : Hooks (Symbolic K))
    (solver : Solver) (p : Problem) : Action (Session (Call K)) (Option (Solution K)) := do
  let settings ← Settings.freeze solver.name solver.parameters
  Session.setStatus none
  let index := p.index
  match ← .ofExcept (p.symbolic index) with
  | none =>
    Session.setStatus (some .infeasible)
    return none
  | some model =>
    Session.tell (.build model)
    let model ← Session.runHooks "ConcreteModel" hooks index solver.hooks model
    if index.size = 0 then
      Session.setStatus (some .optimal)
      let absent (v : Value) : Except Fault K := throw (.missingKey v)
      return some (← .ofExcept (Solution.extract p.toDeclarations absent none))
    findPlugin env engine solver.name
    configure settings
    let (read, reply) ← ask engine solver.name model (2 ≤ settings.verbose)
    match reply.status? with
    | none => Session.fail solver.name (.pluginCondition reply.condition.name)
    | some status =>
      Session.setStatus (some status)
      .note .debug (.engine .pyomo) ("Pyomo/" ++ Phrase.plain solver.name ++
        " finished with status " ++ status.word)
      if !status.hasSolution then return none
      return some (← .ofExcept (readSolution value p index model read reply))

end Milp.Pyomo
