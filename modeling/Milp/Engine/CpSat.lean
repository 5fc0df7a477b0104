import Milp.CutLoop
import Milp.Encoding.Machine
import Milp.Engine.Session
import Milp.Solution

/-!
# CP-SAT

The engine only decides whether a 0-1 problem in whole numbers has an assignment; the objective is
never given to it, and is optimised by cuts. The problem is checked before anything else happens.
Hooks see the model once, before the first question.
-/

namespace Milp.CpSat

/-- The answers to a question of feasibility. -/
inductive Answer where
  | optimal
  | feasible
  | infeasible
  | unknown
  | modelInvalid
  deriving Repr, DecidableEq

def Answer.name : Answer → String
  | optimal => "OPTIMAL"
  | feasible => "FEASIBLE"
  | infeasible => "INFEASIBLE"
  | unknown => "UNKNOWN"
  | modelInvalid => "MODEL_INVALID"

def Answer.ofName? (name : String) : Option Answer :=
  [optimal, feasible, infeasible, unknown, modelInvalid].find? fun a => a.name == name

/-- One question: the options that were taken, and the model as it stands. -/
structure Question where
  options : List (String × Value)
  model : PseudoBoolean
  deriving Repr

/-- What CP-SAT answers to a question. -/
structure Reply where
  answer : Answer
  /-- Which columns are one. -/
  values : List Bool
  /-- What is wrong with the model, if the engine says so. -/
  complaint : String

/-- CP-SAT. An option may be refused with a fault, and so may a row and a question; an answer may
depend on how many questions were asked before. -/
structure Engine where
  setOption : String → Value → Except Fault Unit
  fits : WholeRow → Except Fault Unit
  answer : Nat → Question → Except Fault Reply

/-- The engine in 64 bits that gives prepared answers one after the other, and finds nothing when
they are spent. -/
def Engine.replaying (replies : List Reply) (setOption : String → Value → Except Fault Unit) :
    Engine where
  setOption := setOption
  fits := WholeRow.checkMachine
  answer asked _ := .ok ((replies[asked]?).getD ⟨.infeasible, [], ""⟩)

/-- The state of a solve by cuts. -/
structure State where
  session : Session Question
  model : PseudoBoolean
  asked : Nat

def generalOptions (s : Settings) (remaining : Option Float) : List (String × Value) :=
  (remaining.map fun x => ("max_time_in_seconds", .real x)).toList ++
    (s.threads.map fun n => ("num_search_workers", .int n)).toList ++
    [("log_search_progress", .bool (2 ≤ s.verbose))]

/-- A fault by which an option is refused. -/
def isRefusal (f : Fault) : Bool :=
  f.cls = .member || f.cls = .type || f.cls = .value

def setGeneralOption (engine : Engine) (taken : List (String × Value)) (o : String × Value) :
    Except Fault (List (String × Value)) := do
  engine.setOption o.1 o.2
  return taken ++ [o]

/-- Sets an option of the engine; one that is refused is noted and left out. -/
def setOption {σ : Type} (engine : Engine) (taken : List (String × Value)) (o : Value × Value) :
    Action σ (List (String × Value)) := do
  let name := o.1.asText
  match engine.setOption name o.2 with
  | .ok _ => return taken ++ [(name, o.2)]
  | .error f =>
    if isRefusal f then
      .note .warning (.engine .cpsat) ("CP-SAT rejected option " ++ name ++ "=" ++
        Phrase.literal o.2 ++ " (ignored): " ++ f.message)
      return taken
    else throw f

def assignment (index : Index) (values : List Bool) : Table Int :=
  index.map fun j => if values.getD j.toNat false then 1 else 0

/-- Asks one question. -/
def decide (engine : Engine) (s : Settings) (index : Index) (remaining : Option Float) :
    Action State (Status × Option (Table Int)) := do
  let general ← .ofExcept ((generalOptions s remaining).foldlM (setGeneralOption engine) [])
  let options ← s.options.entries.foldlM (setOption engine) general
  let state ← Action.read
  let question := ⟨options, state.model⟩
  .update fun st => { st with
    asked := st.asked + 1
    session := { st.session with events := st.session.events ++ [.told question] } }
  let reply ← .ofExcept (engine.answer state.asked question)
  match reply.answer with
  | .optimal => return (.feasible, some (assignment index reply.values))
  | .feasible => return (.feasible, some (assignment index reply.values))
  | .infeasible => return (.infeasible, none)
  | .unknown => return (.timeLimit, none)
  | .modelInvalid =>
    let reason := if reply.complaint.isEmpty then reply.answer.name else reply.complaint
    throw (.engineFailed (some s.name) (.cpsatModel reason))

def oracle (engine : Engine) (s : Settings) (index : Index) (objective : WholeSum)
    (maximize : Bool) : CutLoop.Oracle State Float (Table Int) where
  decide := decide engine s index
  addCut bound := do
    let row := WholeRow.cut objective maximize bound
    .ofExcept (engine.fits row)
    .update fun st => { st with model := st.model.add row }

/-- Looks a variable up in an assignment. -/
def operand? {K : Type} [Numeric K] (a : Table Int) (v : Value) :
    Except Fault (Option (Operand K)) := do
  return (← a.lookup v).map fun n => (Number.whole n).operand

def task (p : Problem) (s : Settings) (clock : Nat → Float) :
    CutLoop.Task Float (Table Int) (Table Int) where
  keep := .ok
  value? := p.objective.map fun o a => CutLoop.wholeValue Float o (operand? a)
  maximize := p.sense == .max
  limit := s.timeLimit
  clock := clock

/-- Runs the cuts; a failure of the engine sets the status. -/
def optimize (engine : Engine) (s : Settings) (p : Problem) (index : Index) (objective : WholeSum)
    (model : PseudoBoolean) (clock : Nat → Float) (questions : Nat) :
    Action (Session Question) (CutLoop.Outcome (Table Int)) := do
  let run := (task p s clock).optimize (oracle engine s index objective (p.sense == .max)) questions
  try
    .onPart (fun session => ⟨session, model, 0⟩) (fun st _ => st.session) run
  catch f =>
    if f.cls = .engine then
      Session.setStatus (some .error)
      throw f
    else throw f

/-- Solves a problem with at most a given number of questions. The checks break off with a cause; what
it says of variables and constraints is written by `Store.prepare`, which makes the same checks on
the objects first. -/
def solve (engine : Engine) (hooks : Hooks PseudoBoolean) (clock : Nat → Float) (questions : Nat)
    (solver : Solver) (p : Problem) : Action (Session Question) (Option (Solution Float)) := do
  .ofExcept (p.checkBoolean solver.name)
  .ofExcept (p.checkWhole Float solver.name)
  let settings ← Settings.freeze solver.name solver.parameters
  Session.setStatus none
  Session.setHistory []
  let index := p.index
  let model ← .ofExcept (p.pseudoBoolean Float engine.fits index solver.name)
  let model ← Session.runHooks "CpSatModel" hooks index solver.hooks model
  let objective ← match p.objective with
    | some o => Action.ofExcept (WholeSum.ofExpression Float o index solver.name)
    | none => pure ⟨[]⟩
  let outcome ← optimize engine settings p index objective model clock questions
  Session.setStatus (some outcome.status)
  Session.setHistory outcome.history
  match outcome.assignment with
  | none =>
    .note .info (.engine .cpsat) ("No feasible solution found (" ++ outcome.status.word ++ ")")
    return none
  | some a =>
    let raw (v : Value) : Except Fault Float := do Numeric.ofInt (← a.require v)
    let objective := outcome.objectiveValue.map fun n => Reported.number (.whole n)
    return some (← .ofExcept (Solution.extract p.toDeclarations raw objective))

end Milp.CpSat
