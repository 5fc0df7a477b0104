import Milp.Engine.CpSat
import Milp.Engine.Highs
import Milp.Engine.Pyomo
import Milp.Engine.Scipy
import Milp.Exact.Program

/-!
# Exact engines

The exact solver behind each of the native forms, so that small problems are solved without any
engine being installed. Each form is read back as a program; what it says of the data of a problem
is all that is used.
-/

namespace Milp.Exact

/-! ## Reading native forms -/

/-- The number a coefficient stands for; one that is not finite counts as zero. -/
def coefficient (x : Float) : Rat :=
  (Binary64.toRat? x).getD 0

/-- The nearest double of a number; infinite when it is out of range. -/
def toDouble (q : Rat) : Float :=
  (Binary64.ofRat? q).getD (if q < 0 then -Binary64.infinity else Binary64.infinity)

def dense (width : Nat) (entries : List (Nat × Float)) : List Rat :=
  (List.range width).map fun j =>
    ((entries.filter fun e => e.1 == j).map fun e => coefficient e.2).foldl (· + ·) 0

/-- The vector with a single one. -/
def unit (width column : Nat) : List Rat :=
  (List.range width).map fun j => if j = column then 1 else 0

/-- The halfspaces of ranges of doubles for vectors. -/
def confine (normal : List Rat) (lower upper : Float) : List Halfspace :=
  Halfspace.ofRange normal ⟨.ofFloat lower, .ofFloat upper⟩

/-- The halfspaces of the bounds of all columns. -/
def confineColumns (lower upper : List Float) : List Halfspace :=
  (List.zipWith Prod.mk lower upper).zipIdx.flatMap fun ((l, u), j) =>
    confine (unit lower.length j) l u

/-- The halfspaces of the ranges of all rows. -/
def confineRows (rows : List (List Rat)) (lower upper : List Float) : List Halfspace :=
  (List.zipWith Prod.mk rows (List.zipWith Prod.mk lower upper)).flatMap fun (row, l, u) =>
    confine row l u

/-- A bound that may be absent, as a double. -/
def orElse (x : Option Float) (absent : Float) : Float := x.getD absent

/-- The costs, negated if they are to be made large. -/
def signedCost (maximize : Bool) (cost : List Rat) : List Rat :=
  if maximize then cost.map fun c => -c else cost

/-- The program of the column-wise form. -/
def ofColumnwise (m : Columnwise Float) : Program :=
  let segment (j : Nat) (i : Nat) : List (Nat × Float) :=
    let first := m.start.getD j 0
    let last := m.start.getD (j + 1) first
    (((m.index.zip m.value).drop first).take (last - first)).filterMap fun e =>
      if e.1 = i then some (j, e.2) else none
  let row (i : Nat) := dense m.columns ((List.range m.columns).flatMap fun j => segment j i)
  { halfspaces := confineColumns m.colLower m.colUpper ++
      confineRows ((List.range m.rows).map row) m.rowLower m.rowUpper
    integral := (List.range m.columns).map fun j => m.integral.getD j false
    cost := signedCost m.maximize (m.cost.map coefficient) }

def ofRanged (m : Ranged Float) : Program :=
  { halfspaces := confineColumns m.lower m.upper ++
      confineRows (m.matrix.rows.map (dense m.matrix.width)) m.rowLower m.rowUpper
    integral := m.integrality.map (· != 0)
    cost := m.cost.map coefficient }

def ofSplit (m : Split Float) : Program :=
  let uppers := match m.upperRows with
    | none => []
    | some (a, b) => confineRows (a.rows.map (dense a.width)) (b.map fun _ => -Binary64.infinity) b
  let equations := match m.equations with
    | none => []
    | some (a, b) => confineRows (a.rows.map (dense a.width)) b b
  { halfspaces := confineColumns (m.bounds.map fun b => orElse b.lower (-Binary64.infinity))
      (m.bounds.map fun b => orElse b.upper Binary64.infinity) ++ uppers ++ equations
    integral := m.bounds.map fun _ => false
    cost := m.cost.map coefficient }

/-- The program of the symbolic form as a plugin reads it. -/
def ofPluginModel (m : PluginModel Float) : Program :=
  let width := m.vars.length
  let lower (b : Bounds Float) := orElse b.lower (-Binary64.infinity)
  let upper (b : Bounds Float) := orElse b.upper Binary64.infinity
  { halfspaces := confineColumns (m.vars.map fun v => lower v.bounds)
      (m.vars.map fun v => upper v.bounds) ++
      m.rows.flatMap fun r => confine (dense width r.entries) (lower r.bounds) (upper r.bounds)
    integral := m.vars.map fun v => v.domain.isInt
    cost := signedCost m.maximize (dense width m.objective) }

/-- The program of the pseudo-boolean form: a search for any point. -/
def ofPseudoBoolean (m : PseudoBoolean) : Program :=
  let vector (s : WholeSum) : List Rat :=
    (List.range m.columns).map fun j => (s.coefficient j : Rat)
  let side (x : Option Int) (absent : Extended) : Extended := match x with
    | some n => .finite n
    | none => absent
  let rows := m.rows.flatMap fun r =>
    Halfspace.ofRange (vector r.lhs) ⟨side r.lower? .negInf, side r.upper? .posInf⟩
  let columns := (List.range m.columns).flatMap fun j =>
    Halfspace.ofRange (unit m.columns j) ⟨.finite 0, .finite 1⟩
  { halfspaces := columns ++ rows
    integral := (List.range m.columns).map fun _ => true
    cost := (List.range m.columns).map fun _ => 0 }

/-! ## Engines -/

/-- The value of a vector of costs at a point. -/
def objective (cost : List Float) (x : List Rat) : Float :=
  toDouble (dot (cost.map coefficient) x)

/-- A reply of HiGHS in a state, with a point. -/
def highsReply (m : Columnwise Float) (state : Highs.ModelStatus) (x : List Rat) :
    Highs.Reply Float :=
  { failed := false, modelStatus := state, description := "Unknown"
    primalStatus := .int (if state = .optimal then 2 else 0)
    objective := .number (.real (objective m.cost x))
    values := x.map fun q => .number (.real (toDouble q))
    columnDuals := [], rowDuals := [], dualValid := false }

/-- HiGHS, answered exactly. -/
def highs : Highs.Engine Float where
  accepts _ _ := true
  acceptsModel _ := true
  run m := .ok <| match (ofColumnwise m).solve with
    | .infeasible => highsReply m .infeasible []
    | .unbounded => highsReply m .unbounded []
    | .optimal x => highsReply m .optimal x
    | .undecided => highsReply m .unknown []

/-- A reply of SciPy with a code, with the value and the point if there are any. -/
def scipyReply (code : Int) (found : Option (List Float × List Rat)) : Scipy.Reply Float :=
  { code := .int code, values := found.map fun f => f.2.map toDouble
    objective := found.map fun f => .number (.real (objective f.1 f.2))
    upperMarginals := none, equationMarginals := none
    lowerBoundMarginals := none, upperBoundMarginals := none }

/-- SciPy, answered exactly. -/
def scipy : Scipy.Engine Float := fun call =>
  let (program, cost) := match call with
    | .mixed m => (ofRanged m, m.cost)
    | .linear m => (ofSplit m, m.cost)
  .ok <| match program.solve with
    | .infeasible => scipyReply 2 none
    | .unbounded => scipyReply 3 none
    | .optimal x => scipyReply 0 (some (cost, x))
    | .undecided => scipyReply 4 none

/-- A reply of a plugin in a condition, with a point. -/
def pyomoReply (condition : Pyomo.Condition) (x : List Rat) : Pyomo.Reply Float :=
  { condition := condition, solutions := if x.isEmpty then 0 else 1
    values := x.map fun q => some (.real (toDouble q)), duals := [] }

/-- A plugin that can be used, answered exactly. -/
def pyomo : Pyomo.Engine Float where
  available _ := .ok true
  solve m := .ok <| match (ofPluginModel m).solve with
    | .infeasible => pyomoReply .infeasible []
    | .unbounded => pyomoReply .unbounded []
    | .optimal x => pyomoReply .optimal x
    | .undecided => pyomoReply (.other "unknown") []

/-- CP-SAT, answered exactly. -/
def cpsat : CpSat.Engine where
  setOption _ _ := .ok ()
  fits := WholeRow.checkMachine
  answer _ question := .ok <| match (ofPseudoBoolean question.model).solve with
    | .optimal x => ⟨.optimal, x.map (· == 1), ""⟩
    | .infeasible => ⟨.infeasible, [], ""⟩
    | _ => ⟨.unknown, [], ""⟩

def stillClock : Nat → Float := fun _ => 0.0

/-- Enough questions for a 0-1 problem: every answer but the last is a new point. -/
def enoughQuestions (p : Problem) : Nat :=
  (1 <<< p.vars.size) + 1

/-- An action of a session in which the engine's part of the events is forgotten. -/
def forgetting {ν α : Type} (a : Action (Session ν) α) : Action (Session Unit) α :=
  .onPart (fun s => ⟨s.status, s.history, []⟩)
    (fun t s => ⟨t.status, t.history, s.events ++ t.hookCalls.map fun c => .hook c.1 c.2⟩) a

/-- Solves a problem exactly in the way of a solver. Gurobi has no exact counterpart. -/
def solve (env : Environment) (hooks : {μ : Type} → Hooks μ) (solver : Solver) (p : Problem) :
    Action (Session Unit) (Option (Solution Float)) :=
  match solver.backend with
  | .highs => forgetting (Highs.solve highs hooks solver p)
  | .scipy => forgetting (Scipy.solve scipy hooks solver p)
  | .cpsat => forgetting (CpSat.solve cpsat hooks stillClock (enoughQuestions p) solver p)
  | .pyomo =>
    let engine := { pyomo with available := fun name => env.plugin name.asText }
    forgetting (Pyomo.solve .real env engine hooks solver p)
  | .gurobi => throw (.unavailable (.notLoaded solver.name.asText Discovery.gurobiHint))

end Milp.Exact
