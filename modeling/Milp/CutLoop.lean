import Milp.Action
import Milp.Linear.Evaluate

/-!
# Optimising by cuts

An engine that only decides whether there is an assignment is made to optimise: every assignment it
finds is followed by a cut that asks for a strictly better one, until there is none or the time is
spent. The engine and the clock are arguments, so nothing is assumed of either; since an engine may
go on answering for ever, the number of questions is bounded from outside.
-/

namespace Milp.CutLoop

/-- An engine that answers questions of feasibility. `α` is what it gives as an assignment. -/
structure Oracle (σ K α : Type) where
  /-- Looks for an assignment within the remaining time, or without a limit. -/
  decide : Option K → Action σ (Status × Option α)
  /-- Asks that the objective be at most, or at least, a number from now on. -/
  addCut : Int → Action σ Unit

/-- How a run ended. `β` is what is kept of an assignment. -/
structure Outcome (β : Type) where
  status : Status
  /-- The last assignment that was found. -/
  assignment : Option β
  objectiveValue : Option Int
  /-- The objective values of all assignments that were found, in order. -/
  history : List Int
  iterations : Nat
  deriving Repr

variable {σ K α β : Type} [Numeric K]

/-- The outcome before the first question. -/
def Outcome.initial : Outcome β := ⟨.unknown, none, none, [], 0⟩

/-- What is optimised. -/
structure Task (K α β : Type) where
  /-- What is kept of an assignment. -/
  keep : α → Except Fault β
  /-- The objective value of an assignment, unless there is no objective. -/
  value? : Option (α → Except Fault Int)
  maximize : Bool
  limit : Option K
  /-- What the clock shows when it is read for the first time, the second time, and so on. -/
  clock : Nat → K

def Task.remaining (t : Task K α β) (limit : K) (reading : Nat) : K :=
  Numeric.max (limit - (t.clock reading - t.clock 0)) Numeric.zero

/-- The bound that is strictly better than an objective value. -/
def Task.improved (t : Task K α β) (value : Int) : Int :=
  if t.maximize then value + 1 else value - 1

/-- The time for the next question, when the clock has been read a given number of times: nothing
when the time is spent, and no limit where there is none. -/
def Task.budget (t : Task K α β) (readings : Nat) : Option (Option K) :=
  match t.limit with
  | none => some none
  | some limit =>
    let remaining := t.remaining limit readings
    if Numeric.le remaining Numeric.zero then none else some (some remaining)

/-- How often the clock has been read after the next question. -/
def Task.nextReading (t : Task K α β) (readings : Nat) : Nat :=
  if t.limit.isSome then readings + 1 else readings

/-- Records an assignment that was found, and cuts off all that are not better. -/
def Task.record (t : Task K α β) (oracle : Oracle σ K α) (value : α → Except Fault Int)
    (o : Outcome β) (a : α) (kept : β) : Action σ (Outcome β) := do
  let v ← .ofExcept (value a)
  .note .info .cuts ("Found new solution: " ++ Int.repr v)
  oracle.addCut (t.improved v)
  return { o with assignment := some kept, objectiveValue := some v, history := o.history ++ [v] }

/-- Asks until there is no answer or no time, or until no more questions are allowed. Gives the last
answer with what was found. The clock has been read a given number of times. -/
def Task.run (t : Task K α β) (oracle : Oracle σ K α) :
    (questions readings : Nat) → Outcome β → Action σ (Status × Outcome β)
  | questions, readings, o =>
    match t.budget readings, questions with
    | none, _ => return (.timeLimit, o)
    | some _, 0 => throw .unfinished
    | some remaining, questions + 1 => do
      let (status, answer) ← oracle.decide remaining
      let o := { o with iterations := o.iterations + 1 }
      match status.hasSolution, answer with
      | false, _ => return (status, o)
      | true, none => throw (.notIterable "NoneType")
      | true, some a => do
        let kept ← .ofExcept (t.keep a)
        match t.value? with
        | none => return (status, { o with assignment := some kept })
        | some value =>
          let o ← t.record oracle value o a kept
          t.run oracle questions (t.nextReading readings) o

/-- The status of a run that ended with a given last answer. -/
def Task.finalStatus (t : Task K α β) (last : Status) (o : Outcome β) : Status :=
  if o.assignment.isNone then last
  else if last = .infeasible || t.value?.isNone then .optimal
  else .feasible

/-- Optimises with at most a given number of questions. -/
def Task.optimize (t : Task K α β) (oracle : Oracle σ K α) (questions : Nat) :
    Action σ (Outcome β) := do
  let (last, o) ← t.run oracle questions 1 .initial
  let o := { o with status := t.finalStatus last o }
  .note .debug .cuts ("Cut loop finished after " ++ Nat.repr o.iterations ++
    " iterations with status " ++ o.status.word)
  return o

/-- The objective value of an assignment as the cuts use it: the nearest whole number, a tie going
to the even one. -/
def wholeValue (K : Type) [Numeric K] (objective : Expression)
    (value? : Value → Except Fault (Option (Operand K))) : Except Fault Int := do
  match ← (← objective.having "evaluate").evaluate value? false with
  | .whole n => return n
  | .real x => Numeric.round x

end Milp.CutLoop
