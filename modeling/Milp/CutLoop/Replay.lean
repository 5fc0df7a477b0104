import Milp.CutLoop

/-!
# Replayed answers

An oracle that gives prepared answers one after the other and records what it is asked. When the
answers are spent it finds nothing, so a run of cuts with it ends.
-/

namespace Milp.CutLoop

/-- What an oracle is asked. -/
inductive Asked (K : Type) where
  /-- To look for an assignment within a time, or without a limit. -/
  | decide (remaining : Option K)
  /-- To keep the objective on one side of a number. -/
  | cut (bound : Int)
  deriving Repr

/-- What is asked, with times in another form. -/
def Asked.map {K L : Type} (f : K → L) : Asked K → Asked L
  | decide remaining => decide (remaining.map f)
  | cut bound => cut bound

/-- The answers that are left, and what was asked so far. -/
structure Replay (K α : Type) where
  answers : List (Except Fault (Status × Option α))
  asked : List (Asked K)

namespace Replay

variable {K α : Type}

def ask (r : Replay K α) (a : Asked K) : Replay K α :=
  { r with asked := r.asked ++ [a] }

/-- The oracle that gives the answers that are left. -/
def oracle : Oracle (Replay K α) K α where
  decide remaining := do
    let r ← Action.read
    .update fun r => { r.ask (.decide remaining) with answers := r.answers.tail }
    match r.answers with
    | [] => return (.infeasible, none)
    | answer :: _ => .ofExcept answer
  addCut bound := .update fun r => r.ask (.cut bound)

end Replay

end Milp.CutLoop
