import Milp.Action
import Milp.Linear.Evaluate
import Milp.Table

/-!
# Settings

Parameters are collected under any keys. When a solve starts they are frozen: texts are options of
the engine and kept as they are; the numbers of the well-known parameters, however spelled, set the
fields of the settings. What cannot be used is noted and passed over.
-/

namespace Milp

/-- The settings of one solve. -/
structure Settings where
  name : Value
  /-- Seconds. -/
  timeLimit : Option Float
  /-- Relative gap. -/
  gap : Option Float
  threads : Option Int
  verbose : Int
  postsolve : Option Value
  /-- Options of the engine, by name. -/
  options : Table Value
  deriving Repr

namespace Settings

/-- The settings without any parameters. -/
def initial (name : Value) : Settings :=
  ⟨name, none, none, none, 0, none, .empty⟩

def parameterOf? (k : Value) : Option Parameter :=
  match k.key with
  | .number q => if isWhole q then Parameter.ofCode? q.num else none
  | _ => none

/-- A number that is not a truth value and not negative. -/
def isAmount (v : Value) : Bool :=
  match v with
  | .bool _ => false
  | _ =>
    v.isReal &&
      match v.number? with
      | some x => Extended.le (.finite 0) x
      | none => false

/-- A number without its fractional part. -/
def toInt (v : Value) : Except Fault Int :=
  match v.toInt? with
  | some n => .ok n
  | none => do
    let x : Float ← Numeric.ofValue v
    Numeric.toIntBy Subtotal.truncate x

/-- A whole number that is not a truth value. -/
def count? (v : Value) : Option Int :=
  match v with
  | .bool _ => none
  | _ => v.toInt?

def passOver (p : Parameter) (v : Value) : Action Settings Unit :=
  .note .warning .parameters
    ("Ignoring parameter " ++ p.name ++ " with unexpected value " ++ Phrase.literal v)

def setParameter (p : Parameter) (v : Value) : Action Settings Unit := do
  match p with
  | .timeout =>
    if isAmount v then
      let x ← .ofExcept (Numeric.ofValue v)
      .update fun s => { s with timeLimit := some x }
    else passOver p v
  | .verbose =>
    if v.isReal then
      let n ← .ofExcept (toInt v)
      .update fun s => { s with verbose := n }
    else passOver p v
  | .gap =>
    if isAmount v then
      let x ← .ofExcept (Numeric.ofValue v)
      .update fun s => { s with gap := some x }
    else passOver p v
  | .threads =>
    match count? v with
    | some n => .update fun s => { s with threads := some n }
    | none => passOver p v
  | .postsolve => .update fun s => { s with postsolve := some v }

/-- Takes in one parameter. -/
def take (k v : Value) : Action Settings Unit := do
  match k with
  | .text _ => .update fun s => { s with options := s.options.insert k v }
  | _ =>
    match parameterOf? k with
    | none => .note .warning .parameters ("Ignoring unknown parameter " ++ Phrase.literal k)
    | some p => if v.isNone then pure () else setParameter p v

def ofParameters (name : Value) (parameters : Table Value) :
    Except Fault Settings × List Message :=
  let (r, s) := (parameters.entries.forM fun e => take e.1 e.2 : Action Settings Unit).perform
    (initial name)
  (r.map fun _ => s.state, s.log)

def freeze {σ : Type} (name : Value) (parameters : Table Value) : Action σ Settings := do
  let (r, log) := ofParameters name parameters
  modify fun s => { s with log := s.log ++ log }
  .ofExcept r

/-! ## Plugins -/

/-- The names under which a plugin knows the time limit, the gap and the number of threads. -/
structure PluginNames where
  timeLimit : Option String
  gap : Option String
  threads : Option String

def pluginNames : Value → PluginNames
  | .text "highs" => ⟨some "time_limit", some "mip_rel_gap", some "threads"⟩
  | .text "gurobi" => ⟨some "TimeLimit", some "MIPGap", some "Threads"⟩
  | .text "cplex" => ⟨some "timelimit", some "mip_tolerances_mipgap", some "threads"⟩
  | .text "cbc" => ⟨some "seconds", some "ratioGap", some "threads"⟩
  | .text "glpk" => ⟨some "tmlim", none, none⟩
  | .text "scip" => ⟨some "limits/time", some "limits/gap", some "parallel/maxnthreads"⟩
  | _ => ⟨none, none, none⟩

/-- The entry of an option, if the plugin has a name for it and it is set. -/
def pluginEntry (name : Option String) (v : Value) : List (Value × Value) :=
  match name, v.toOption with
  | some n, some v => [(.text n, v)]
  | _, _ => []

/-- The options a plugin is given: the general settings under the plugin's names, overwritten by the
options of the engine. -/
def optionsFor (name timeLimit gap threads : Value) (options : Table Value) : Table Value :=
  let names := pluginNames name
  (Table.ofList (pluginEntry names.timeLimit timeLimit ++ pluginEntry names.gap gap ++
    pluginEntry names.threads threads)).insertAll options.entries

def pluginOptions (s : Settings) : Table Value :=
  optionsFor s.name (.ofOption (s.timeLimit.map .real)) (.ofOption (s.gap.map .real))
    (.ofOption (s.threads.map .int)) s.options

end Settings

end Milp
