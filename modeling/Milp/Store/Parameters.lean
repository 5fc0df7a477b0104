import Milp.Solver.Adapter
import Milp.Store.Conversion

/-!
# Calls on what holds parameters and hooks

Bags, factories and solvers hold parameters; registries and solvers hold hooks. Each object has its
own: a solver that a factory makes starts with the parameters of the factory and goes on by itself.
-/

namespace Milp.Store

/-! ## Parameters -/

/-- The number of the dictionary that holds the parameters of an object. -/
def parametersHeld (s : Store) (r : Ref) (member : String) : Except Fault Nat :=
  match s.parametersOf? r with
  | some d => .ok d
  | none => .error ((Value.object r).lacks member)

def setParameter (r : Ref) (key value : Value) : Action Store Unit := do
  let d ← .ofExcept ((← Action.read).parametersHeld r "set_parameter")
  .ofExcept key.checkKey
  changeDict d fun t => t.insert key value

/-- Makes a bag of the entries that a value can be made into; nothing makes an empty one. -/
def makeBag (parameters : Value) : Action Store Value := do
  let s ← Action.read
  if ← .ofExcept (s.isTrue parameters) then newBag (← .ofExcept (s.toTable parameters))
  else newBag .empty

def recordOf (s : Settings) : Action Store Value := do
  let options ← newDict s.options
  return .config s.name (.ofOption (s.timeLimit.map .real)) (.ofOption (s.gap.map .real))
    (.ofOption (s.threads.map .int)) (.int s.verbose) (.ofOption s.postsolve) options

/-- Makes a record of the settings that the parameters of an object amount to under a name. -/
def freeze (r : Ref) (name : Value) : Action Store Value := do
  let s ← Action.read
  let d ← .ofExcept (s.parametersHeld r "freeze")
  recordOf (← Settings.freeze name (s.dict d))

/-- Makes a record of the settings that the parameters in a dictionary amount to under a name. -/
def configOf (name parameters : Value) : Action Store Value := do
  match parameters with
  | .object ⟨.dict, id⟩ => recordOf (← Settings.freeze name ((← Action.read).dict id))
  | v => throw (v.lacks "items")

/-- The options of a plugin that a record of settings amounts to. The name has to be one that can be
told from a text. -/
def pluginOptions (s : Store) (config : Value) : Except Fault (Table Value) :=
  match config with
  | .config name timeLimit gap threads _ _ options => do
    let _ ← s.isTrue (← s.compare name (.text "highs"))
    let own ← s.toTable options
    return Settings.optionsFor name timeLimit gap threads own
  | v => .error (v.lacks "to_pyomo_options")

/-! ## Hooks -/

def hooksHeld (s : Store) (r : Ref) (member : String) : Except Fault (List Value) :=
  match s.hooksOf? r with
  | some hooks => .ok hooks
  | none => .error ((Value.object r).lacks member)

/-- Adds a hook at the end unless it is there. -/
def addHook (r : Ref) (hook : Value) : Action Store Unit := do
  let s ← Action.read
  let hooks ← .ofExcept (s.hooksHeld r "add_hook")
  if !(← .ofExcept (s.anySame hooks hook)) then changeHooks r fun hooks => hooks ++ [hook]

/-- Values without the first that is the same as a given one. -/
def without (s : Store) : List Value → Value → Except Fault (List Value)
  | [], _ => .ok []
  | x :: xs, v => do
    if ← s.same x v then return xs
    return x :: (← without s xs v)

/-- Removes a hook if it is there. -/
def removeHook (r : Ref) (hook : Value) : Action Store Unit := do
  let s ← Action.read
  let hooks ← .ofExcept (s.hooksHeld r "remove_hook")
  let left ← .ofExcept (s.without hooks hook)
  changeHooks r fun _ => left

def columnsOf (s : Store) (index : Value) : Except Fault (List (Value × Value)) :=
  match index with
  | .object ⟨.dict, id⟩ => .ok (s.dict id).entries
  | v => .error (v.lacks "items")

/-- Calls hooks in order, each with a native model and the columns of variables. A type that stands
among them is called like any other. -/
def callHooks (hooks native index : Value) : Action Store Unit := do
  let w := (← Action.read).walk hooks
  w.items.forM fun h => do
    match h with
    | .object ⟨.hook, id⟩ =>
      let s ← Action.read
      let hook := s.hook id
      recordHookCall hook.name (← .ofExcept (s.columnsOf index))
      match hook.fault with
      | some f => throw f
      | none => pure ()
    | v => do
      let _ ← callValue v [native, index]
  .ofExcept (w.finish "")

/-! ## Making solvers -/

/-- Makes a factory; without a name, one of the default engine. -/
def makeFactory (env : Environment) (name : Value) (options : Table Value) :
    Action Store Value := do
  newFactory (.text (← Solver.nameFor env name)) options

def makeSolver (env : Environment) (name : Value) : Action Store Value := do
  let x ← .ofExcept (Solver.create env name)
  newSolver x.backend x.name

/-- Sets the parameters of a solver to those of a dictionary. -/
def giveParameters (solver : Value) (parameters : Table Value) : Action Store Unit := do
  match solver with
  | .object r => parameters.entries.forM fun e => setParameter r e.1 e.2
  | _ => pure ()

def solverOfFactory (env : Environment) (factory : Nat) : Action Store Value := do
  let f := (← Action.read).factory factory
  let solver ← makeSolver env f.name
  giveParameters solver ((← Action.read).dict f.parameters)
  .note .debug .factory ("Created " ++ Phrase.plain f.name ++ " solver with parameters " ++
    Phrase.plain (.object ⟨.dict, f.parameters⟩))
  return solver

end Milp.Store
