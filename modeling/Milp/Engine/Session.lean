import Milp.Action
import Milp.Encoding.Columns
import Milp.Solver.Adapter

/-!
# Sessions

What one solve does besides giving an answer: it sets the status and the history of the solver, runs
hooks on the native model, and tells an engine things. The hooks that ran and what the engine was
told are kept in one list, in the order in which they happened.
-/

namespace Milp

/-- Something that happened in a solve; `ν` is what the engine can be told. -/
inductive Event (ν : Type) where
  | hook (hook : Value) (index : Index)
  | told (x : ν)
  deriving Repr

/-- The course of one solve. -/
structure Session (ν : Type) where
  status : Value
  /-- The objective values of a solve by cuts, once they have been set. -/
  history : Option (List Int)
  events : List (Event ν)
  deriving Repr

/-- What hooks do: a hook may change the native model, and may then break off. -/
abbrev Hooks (μ : Type) := Value → Index → μ → μ × Option Fault

namespace Session

variable {ν μ : Type}

def start (s : Solver) : Session ν := ⟨s.lastStatus, none, []⟩

def setStatus (status : Option Status) : Action (Session ν) Unit :=
  .update fun s => { s with status := .ofOption (status.map fun st => .symbol (.status st)) }

def setHistory (history : List Int) : Action (Session ν) Unit :=
  .update fun s => { s with history := some history }

def tell (x : ν) : Action (Session ν) Unit :=
  .update fun s => { s with events := s.events ++ [.told x] }

def fail {α : Type} (engine : Value) (failure : EngineFailure) : Action (Session ν) α := do
  setStatus (some .error)
  throw (.engineFailed (some engine) failure)

/-- Why a type cannot be called with a native model of a kind and the columns of variables. -/
def typeFault (native : String) : TypeName → Fault
  | .int => .notIndex "dict"
  | .text => .conversion (.notText "str" "encoding" "dict")
  | .complex => .conversion (.notComplex "first" native)
  | t => .arguments t.name (.aboveMost 1 2)

def checkHook (native : String) : Value → Except Fault Unit
  | .object ⟨.hook, _⟩ => .ok ()
  | .type t => .error (typeFault native t)
  | v => .error (.notCallable v.kindName)

def runHooks (native : String) (hooks : Hooks μ) (index : Index) :
    List Value → μ → Action (Session ν) μ
  | [], m => return m
  | hook :: rest, m => do
    .ofExcept (checkHook native hook)
    .update fun s => { s with events := s.events ++ [.hook hook index] }
    match hooks hook index m with
    | (m, none) => runHooks native hooks index rest m
    | (_, some f) => throw f

/-- The hooks that ran, in order. -/
def hookCalls (s : Session ν) : List (Value × Index) :=
  s.events.filterMap fun e => match e with
    | .hook hook index => some (hook, index)
    | .told _ => none

/-- What the engine was told, in order. -/
def tellings (s : Session ν) : List ν :=
  s.events.filterMap fun e => match e with
    | .hook _ _ => none
    | .told x => some x

end Session

end Milp
