import Milp.CutLoop.Replay
import Milp.Number.Quantity
import Milp.Store.Text
import Milp.Store.View

/-!
# Optimising objects by cuts

A run of cuts for whatever serves as an objective, with prepared answers. What is kept of an answer
is a dictionary made of it; it is evaluated as it was given.
-/

namespace Milp.Store

/-- A run of cuts: what is optimised, and how the engine and the clock will answer. -/
structure CutRun where
  objective : Value
  maximize : Bool
  limit : Value
  clock : Nat → Float
  answers : List (Except Fault (Status × Option Value))

/-- What a run of cuts gave, and what was asked in it. -/
structure CutReport where
  outcome : Except Fault Value
  asked : List (CutLoop.Asked Value)

/-- A limit, if there is one, with the way in which times are written: where the limit is an array
of a single number, so are they. -/
def timesOf (limit : Value) : Except Fault (Option Quantity × (Quantity → Value)) :=
  match limit with
  | .array g =>
    match g.entries with
    | [x] => do
      let x ← Numeric.ofValue (.scalar x)
      return (some ⟨.double, x, none⟩, fun q => .array ⟨.double, g.shape, [.double q.number], none⟩)
    | [] => .error .emptyTruth
    | _ => .error .ambiguousTruth
  | limit => do return (← limit.toOption.mapM Quantity.ofValue, Quantity.toValue)

def cutTask (s : Store) (r : CutRun) (limit : Option Quantity) :
    CutLoop.Task Quantity Value (Table Value) where
  keep := s.toTable
  value? := r.objective.toOption.map fun o a =>
    CutLoop.wholeValue Quantity (s.viewExpression o) (s.assigned? a)
  maximize := r.maximize
  limit := limit
  clock i := .free (r.clock i)

def keepOutcome (o : CutLoop.Outcome (Table Value)) : Action Store Value := do
  let assignment ← match o.assignment with
    | some t => newDict t
    | none => pure .none
  let history ← newList (o.history.map .int)
  newOutcome ⟨.symbol (.status o.status), assignment, .ofOption (o.objectiveValue.map .int),
    history, .int o.iterations⟩

def optimizeWithCuts (r : CutRun) : Action Store CutReport := do
  let s ← Action.read
  match timesOf r.limit with
  | .error f => return ⟨.error f, []⟩
  | .ok (limit, written) =>
    let run := (s.cutTask r limit).optimize CutLoop.Replay.oracle (r.answers.length + 2)
    let (answer, logged) := run.perform ⟨r.answers, []⟩
    .noteAll logged.log
    let outcome ← attempt do keepOutcome (← Action.ofExcept answer)
    return ⟨outcome, logged.state.asked.map (·.map written)⟩

end Milp.Store
