import Milp.Engine.Session
import Milp.Store.Encode

/-!
# Solving objects

A solver object solves a problem object: the engine sees the problem as it stands, the solver object
takes over what the session leaves, and a solution becomes a result that mentions the objective of
the problem. What keeps a problem from being taken in is found before the engine is asked: there may
be something else in its place, or in the place of one of its calls.
-/

namespace Milp.Store

/-- What a solve gave: an answer, which is a result or nothing, or a fault; and what the engine was
told. -/
structure Solved (ν : Type) where
  answer : Except Fault Value
  tellings : List ν

/-- The way in which an engine is used. -/
structure Way (K ν : Type) where
  value : K → Value
  solve : Solver → Problem → Action (Session ν) (Option (Solution K))
  /-- A solve that breaks off when the variables of the problem are looked at. -/
  breakOff : Solver → Fault → Action (Session ν) (Option (Solution K))

/-- A solve that breaks off when its settings have been read and the last one has been forgotten. -/
def breakOffAtOnce {ν α : Type} (x : Solver) (f : Fault) : Action (Session ν) α := do
  let _ ← Settings.freeze x.name x.parameters
  Session.setStatus none
  if x.backend = .cpsat then Session.setHistory []
  throw f

/-- The way in which an engine is used that is given a problem at once. -/
def Way.atOnce {K ν : Type} (value : K → Value)
    (solve : Solver → Problem → Action (Session ν) (Option (Solution K))) : Way K ν :=
  ⟨value, solve, breakOffAtOnce⟩

def hookEffects (s : Store) {μ : Type} : Hooks μ := fun hook _ m =>
  match hook with
  | .object ⟨.hook, id⟩ => (m, (s.hook id).fault)
  | _ => (m, none)

def leaveSession {ν : Type} (solver : Nat) (session : Session ν) : Action Store Unit := do
  changeSolver solver fun x => { x with lastStatus := session.status }
  match session.history with
  | some history =>
    let history ← newList (history.map .int)
    changeSolver solver fun x => { x with lastHistory := history }
  | none => pure ()
  session.hookCalls.forM fun (hook, index) => do
    let columns : List (Value × Value) := index.entries.map fun e => (e.1, .int e.2)
    match hook with
    | .object ⟨.hook, id⟩ => recordHookCall ((← Action.read).hook id).name columns
    | _ => pure ()

/-! ## Before a solve -/

/-- The calls by which the adapter of an engine asks about a variable, in order. -/
def variableCalls : Backend → List String
  | .pyomo => ["get_var_type", "get_var_lower_bound", "get_var_upper_bound"]
  | _ => ["get_var_lower_bound", "get_var_upper_bound", "get_var_type"]

/-- A value can be taken in as a problem: it has variables, and if there are some, the calls that
tell about them; and it has constraints. -/
def checkProblem (backend : Backend) (problem : Value) : Action Store Unit := do
  let vars ← variablesOf problem
  let _ ← .ofExcept (Table.collect (vars.items.map fun v => (v, ())))
  .ofExcept (vars.finish "")
  let s ← Action.read
  if !vars.items.isEmpty then
    .ofExcept ((variableCalls backend).forM (s.checkCall problem))
  match problem with
  | .object ⟨.problem, _⟩ => pure ()
  | v => throw (v.lacks "constraints")

/-- What a solver does before it touches anything. One that can only solve 0-1 problems looks
through the problem first. -/
def prepare (solver : Ref) (x : Solver) (problem : Value) : Action Store Unit := do
  if x.backend = .cpsat then
    raising (checkBoolean problem x.name)
    raising (checkWhole problem x.name)
  match (← Action.read).refusal? (.object solver) "freeze" with
  | some f => throw f
  | none => pure ()

/-! ## Solving -/

/-- The problem that a value is, as it stands. -/
def problemOf (s : Store) : Value → Problem
  | .object ⟨.problem, id⟩ => s.viewProblem id
  | _ => .empty

def objectiveIn (s : Store) : Value → Value
  | .object ⟨.problem, id⟩ => (s.problem id).objective
  | _ => .none

/-- Carries a solve out: `run` is a session of the engine, and what it notes and what it breaks off
with are what the solve notes and breaks off with. The names of solvers and the codes of engines that
its faults show are texts and numbers, so there is nothing in them that could not be written. -/
def runSession {K ν : Type} (solver : Ref) (x : Solver) (problem : Value) (value : K → Value)
    (run : Action (Session ν) (Option (Solution K))) : Action Store (Solved ν) := do
  let (answer, logged) := run.perform (.start x)
  leaveSession solver.id logged.state
  .noteAll logged.log
  let answer ← attempt do
    match ← Action.ofExcept answer with
    | none => return .none
    | some solution => resultOf value ((← Action.read).objectiveIn problem) solution
  return ⟨answer, logged.state.tellings⟩

/-- Lets a solver object solve a problem in the way of an engine. A fault is part of what is
given. -/
def solve {K ν : Type} (way : Way K ν) (solver : Ref) (problem : Value) :
    Action Store (Solved ν) := do
  match (← Action.read).extra? (.object solver) "solve" with
  | some v => return ⟨← attempt (callValue v [problem]), []⟩
  | none =>
    let x := (← Action.read).viewSolver solver.id
    match ← attempt (prepare solver x problem) with
    | .error f => return ⟨.error f, []⟩
    | .ok _ =>
      match ← attempt (checkProblem x.backend problem) with
      | .error f => runSession solver x problem way.value (way.breakOff x f)
      | .ok _ =>
        runSession solver x problem way.value (way.solve x ((← Action.read).problemOf problem))

end Milp.Store
