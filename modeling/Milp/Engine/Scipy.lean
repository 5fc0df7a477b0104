import Milp.Encoding.Ranged
import Milp.Engine.Session
import Milp.Solution

/-!
# SciPy

The problem is given as something to be made small: with integral columns in the ranged form, and
otherwise in the split form, for which duals are reported. Hooks see the ranged form, and may change
the options too. A problem without variables is answered without the engine.
-/

namespace Milp.Scipy

variable {K : Type} [Numeric K]

/-- What SciPy is told. -/
inductive Call (K : Type) where
  | mixed (model : Ranged K)
  | linear (model : Split K)
  deriving Repr

/-- What SciPy answers. Marginals may be absent. -/
structure Reply (K : Type) where
  code : Value
  values : Option (List K)
  objective : Option (Reported K)
  upperMarginals : Option (List K)
  equationMarginals : Option (List K)
  lowerBoundMarginals : Option (List K)
  upperBoundMarginals : Option (List K)

/-- SciPy: it answers, or breaks off. -/
abbrev Engine (K : Type) := Call K → Except Fault (Reply K)

/-- What a code says about the model, if anything. -/
def outcome? (code : Value) : Option Status :=
  match code.key with
  | .number q =>
    if q = 0 then some .optimal
    else if q = 1 then some .timeLimit
    else if q = 2 then some .infeasible
    else if q = 3 then some .unbounded
    else none
  | _ => none

/-- The status of a reply: a limit with an assignment counts as feasible. -/
def classify (code : Value) (hasValues : Bool) : Except Fault Status := do
  code.checkKey
  match outcome? code with
  | none => throw (.engineFailed (some (.text "scipy")) (.scipyCode code))
  | some .timeLimit => return if hasValues then .feasible else .timeLimit
  | some s => return s

/-- The options that the settings ask for, with what is noted on the way. -/
def options {ν : Type} (s : Settings) (mixed : Bool) : Action (Session ν) (Table Value) := do
  let general : List (Value × Value) := [(.text "disp", .bool (2 ≤ s.verbose))] ++
    (s.timeLimit.map fun x => (.text "time_limit", .real x)).toList
  if s.postsolve.isSome then
    .note .debug (.engine .scipy) "POSTSOLVE has no SciPy counterpart (ignored)"
  let gap : List (Value × Value) := match s.gap with
    | some g => if mixed then [(.text "mip_rel_gap", .real g)] else []
    | none => []
  if s.gap.isSome && !mixed then
    .note .debug (.engine .scipy) "GAP is ignored for pure LPs"
  if s.threads.isSome then
    .note .debug (.engine .scipy) "THREADS is not supported by SciPy (ignored)"
  return (Table.ofList (general ++ gap)).insertAll s.options.entries

/-! ## Duals -/

/-- Adds numbers to the entries with the given numbers. -/
def scatter (xs : List K) (rows : List Nat) (ys : List K) : List K :=
  (rows.zip ys).foldl (fun xs (i, y) => xs.modify i (· + y)) xs

/-- Numbers to be added to so many others, one for each; a single one serves for all. -/
def fit (size : Nat) (ys : List K) : Except Fault (List K) :=
  if ys.length = size then .ok ys
  else match ys with
    | [y] => .ok (List.replicate size y)
    | ys =>
      if size = 1 then .error (.misfit (.output size ys.length))
      else .error (.misfit (.operands [[size], [ys.length], [size]]))

/-- Adds numbers to the entries with the given numbers, one for each. -/
def addTo (rows : List Nat) (xs ys : List K) : Except Fault (List K) := do
  Ranged.checkPlaces xs.length rows
  return scatter xs rows (← fit rows.length ys)

/-- Entry by entry, the sum of a list and one that may be absent. -/
def addPresent (ys : Option (List K)) (xs : List K) : Except Fault (List K) :=
  match ys with
  | none => .ok xs
  | some ys => do return List.zipWith (· + ·) xs (← fit xs.length ys)

/-- The duals of so many constraints, from the marginals of the split form of `m`, which stand in the
order upper sides, lower sides negated, equations. A hook may have left `m` with rows that are no
constraints (an index out of range), or without rows (constraints whose duals are zero). -/
def rowDuals (size : Nat) (m : Ranged K) (r : Reply K) : Except Fault (List K) := do
  let uppers := m.rowsWhere Ranged.hasUpper
  let lowers := m.rowsWhere Ranged.hasLower
  let equals := m.rowsWhere Ranged.isEquation
  let marginals := r.upperMarginals.getD []
  let duals := List.replicate size Numeric.zero
  let duals ← if marginals.isEmpty then pure duals else do
    let duals ← addTo uppers duals (marginals.take uppers.length)
    addTo lowers duals ((marginals.drop uppers.length).map fun x => -x)
  let marginals := r.equationMarginals.getD []
  if marginals.isEmpty then return duals else addTo equals duals marginals

/-- The reduced costs of so many variables, from the marginals of their bounds. -/
def columnDuals (size : Nat) (r : Reply K) : Except Fault (List K) := do
  addPresent r.upperBoundMarginals
    (← addPresent r.lowerBoundMarginals (List.replicate size Numeric.zero))

/-- A dual in the sense of the problem. -/
def signed (m : Ranged K) (x : K) : K :=
  (if m.maximize then -(Numeric.ofFloat 1.0) else Numeric.ofFloat 1.0) * x

/-- The duals by variable and by name of constraint. -/
def duals (p : Problem) (index : Index) (m : Ranged K) (r : Reply K) :
    Except Fault (Table K) := do
  let constraints ← p.constraints.toList "name"
  let rows ← rowDuals constraints.length m r
  let columns := (← columnDuals index.size r).map (signed m)
  let reduced ← index.values columns fun j => .placeOutOfRange j 0 columns.length
  Table.collect (reduced.entries ++ (constraints.map (·.name)).zip (rows.map (signed m)))

/-! ## Solving -/

/-- An answer that has been classified, with its duals. -/
structure Answer (K : Type) where
  status : Status
  reply : Reply K
  duals : Table K

/-- The model that is given to the engine. Its rows are split unless it has integral columns, and
then must have their sides. -/
def matched (m : Ranged K) : Except Fault (Ranged K) :=
  if m.isMixed then .ok m else m.aligned

/-- Asks the engine, which is given the form that suits the model. -/
def ask (engine : Engine K) (p : Problem) (index : Index) (given : Ranged K) :
    Action (Session (Call K)) (Answer K) := do
  let m ← .ofExcept (matched given)
  let call := if m.isMixed then Call.mixed m else .linear m.split
  Session.tell call
  let reply ← .ofExcept (engine call)
  let status ← .ofExcept (classify reply.code reply.values.isSome)
  if m.isMixed || !status.hasSolution then return ⟨status, reply, .empty⟩
  let duals ← .ofExcept (duals p index m reply)
  return ⟨status, reply, duals⟩

/-- An action whose faults are reported as the engine's: bad arrays, and failures as they are. -/
def guarded {ν α : Type} (engine : Value) (a : Action (Session ν) α) : Action (Session ν) α := do
  try a
  catch f =>
    match f.cls with
    | .value => Session.fail engine (.scipyArrays f)
    | .engine => do
      Session.setStatus (some .error)
      throw f
    | _ => throw f

/-- The answer to a problem without variables. -/
def solveEmpty {ν : Type} (p : Problem) : Action (Session ν) (Option (Solution K)) := do
  let status ← .ofExcept (p.statusWithoutVariables K)
  Session.setStatus (some status)
  .note .debug (.engine .scipy) ("Problem has no variables; status " ++ status.word)
  if !status.hasSolution then return none
  let absent (v : Value) : Except Fault K := throw (.missingKey v)
  return some (← .ofExcept (Solution.extract p.toDeclarations absent none))

def readSolution (p : Problem) (index : Index) (m : Ranged K) (a : Answer K) :
    Except Fault (Solution K) := do
  let objective ← if p.objective.isSome then
      a.reply.objective.mapM fun x => if m.maximize then x.neg else pure x
    else pure none
  match a.reply.values with
  | none => throw (.notSubscriptable "NoneType")
  | some xs =>
    let values ← index.values xs fun j => .placeOutOfRange j 0 xs.length
    let solution ← Solution.extract p.toDeclarations values.require objective
    return solution.withDuals a.duals

def solve (engine : Engine K) (hooks : Hooks (Ranged K)) (solver : Solver) (p : Problem) :
    Action (Session (Call K)) (Option (Solution K)) := do
  let settings ← Settings.freeze solver.name solver.parameters
  Session.setStatus none
  let index := p.index
  let model ← .ofExcept (p.ranged index)
  let options ← options settings model.isMixed
  let model ←
    Session.runHooks "ScipyModel" hooks index solver.hooks { model with options := options }
  if index.size = 0 then solveEmpty p
  else
    let answer ← guarded solver.name (ask engine p index model)
    Session.setStatus (some answer.status)
    .note .debug (.engine .scipy) ("SciPy finished with status " ++ answer.status.word)
    if !answer.status.hasSolution then return none
    return some (← .ofExcept (readSolution p index model answer))

end Milp.Scipy
