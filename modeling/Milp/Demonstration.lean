import Milp.Exact.Engines
import Milp.Store.Problem
import Milp.Store.Solve

/-!
# A demonstration

An integer production plan, solved with the engine that is chosen among those found, and checked
against its known optimum. The whole course is computed; printing it is left to the program.
-/

namespace Milp.Demonstration

/-! ## The plan -/

def expression (x y : Int) : Linear :=
  ⟨[⟨.text "x", .int x⟩, ⟨.text "y", .int y⟩]⟩

/-- Adds an upper limit on an expression to a problem. -/
def limit (problem : Nat) (lhs : Linear) (rhs : Int) : Action Store Unit := do
  let lhs ← Store.newLinear lhs
  let _ ← Store.addToProblem problem [lhs, .text "<=", .int rhs] .none

/-- The amount of a product is a whole number that is not negative. -/
def amount (problem : Nat) (product : String) : Action Store Unit :=
  Store.onDeclarations problem
    (Declarations.setBoundsAndDomain (.int 0) (.text product) .none (.type .int))

/-- States the plan: profit is made large, and three resources are limited. -/
def statePlan (problem : Nat) : Action Store Unit := do
  let profit ← Store.newLinear (expression 143 60)
  Store.setObjective problem profit (.text "max")
  limit problem (expression 120 210) 15000
  limit problem (expression 110 30) 4000
  limit problem (expression 1 1) 75
  amount problem "x"
  amount problem "y"

/-- The store that holds the plan, as its first problem. -/
def store : Store :=
  ((do let _ ← Store.newProblem; statePlan 0 : Action Store Unit).perform .empty).2.state

/-- What an action on the store of the plan gives, if nothing breaks it off. -/
def inStore {α : Type} (a : Action Store α) : Option α :=
  (a.perform store).1.toOption

/-- A wording as it is written in the store of the plan. -/
def written (p : Phrase) : String :=
  (inStore (Store.write p)).getD ""

def bestProfit : Int := 6266

/-! ## The course -/

/-- What was printed, and how the program ended: with an exit code, or with a fault. -/
structure Report where
  lines : List String
  outcome : Except Fault Int

/-- A place with the engines that are answered exactly, the persistent plugin of one of them, and
no Gurobi. -/
def surroundings : Environment :=
  Inventory.environment ⟨["highspy", "scipy.optimize", "ortools.sat.python.cp_model"], [],
    [("appsi_highs", .ok true)], [(.gurobi, Discovery.gurobiHint)]⟩

/-- Solves the plan exactly in the way of a solver. -/
def solvePlan (solver : Solver) : Except Fault (Option (Solution Float)) :=
  ((Exact.solve surroundings (fun _ _ m => (m, none)) solver (store.viewProblem 0)).perform
    (.start solver)).1

/-- The text of a solution, or of there being none. -/
def solutionText : Option (Solution Float) → String
  | none => "None"
  | some s => (inStore (do
      Store.textOf (← Store.resultOf Value.real (store.problem 0).objective s))).getD ""

def profitOf (s : Solution Float) : Value :=
  .ofOption (inStore (do
    match ← Store.resultOf Value.real (store.problem 0).objective s with
    | .object ⟨.result, id⟩ => Store.objectiveOf id
    | _ => return .none))

def isBest : Option (Solution Float) → Bool
  | none => false
  | some s => ((Numeric.ofValue (profitOf s) : Except Fault Float) >>= Numeric.round).toOption ==
      some bestProfit

/-- The line that separates parts. -/
def rule : String := String.ofList (List.replicate 50 '=')

/-- What stands at the top. -/
def heading (found : List String) : List String :=
  ["ilpkit - solver-agnostic MILP (default HiGHS backend)", rule,
    "\nAvailable solvers: " ++ nameList found]

def noEngine : List String :=
  ["\nNo solver available!", "Please install one of:", "  - HiGHS: pip install highspy",
    "  - Gurobi: pip install ilpkit[gurobi]",
    "  - Pyomo solvers: glpk, cbc, scip or cplex on PATH"]

def verdict (s : Option (Solution Float)) : List String :=
  let good := isBest s
  ["Result: " ++ solutionText s, "Valid: " ++ truthText good, "\n" ++ rule,
    if good then "All tests passed!" else "Unexpected result!"]

/-- The course of the program where the given engines are found. -/
def run (found : List String) : Report :=
  if found.isEmpty then ⟨heading found ++ noEngine, .ok 1⟩
  else
    let shown := heading found ++
      ["\n--- Test: integer production plan ---", written (Phrase.plain (.object ⟨.problem, 0⟩))]
    match Discovery.choose found with
    | .error f => ⟨shown, .error f⟩
    | .ok name =>
      let factory : Option String := inStore (do
        Store.literalOf (← Store.newFactory (.text (Text.toLower name)) .empty))
      let shown := shown ++ ["Created factory: " ++ factory.getD ""]
      match Solver.create surroundings (.text name) >>= solvePlan with
      | .error f => ⟨shown, .error f⟩
      | .ok solution => ⟨shown ++ verdict solution, .ok (if isBest solution then 0 else 1)⟩

end Milp.Demonstration
