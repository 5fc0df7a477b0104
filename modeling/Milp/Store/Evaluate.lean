import Milp.Linear.Evaluate
import Milp.Store.Equality

/-!
# Evaluating objects

The value of an expression under whatever serves as an assignment, and the objective value of a
result, which is computed once and kept.
-/

namespace Milp.Store

/-- The value that an assignment gives a variable; a missing key and an absent value count as
none. -/
def assigned? {K : Type} [Numeric K] (s : Store) (assignment var : Value) :
    Except Fault (Option (Operand K)) :=
  match s.itemAt assignment var with
  | .ok v => .ok (v.toOption.map Value.operand)
  | .error f => if f.cls = .key then .ok none else .error f

/-- Why a member that a value has for being called cannot be: it was replaced by something that is
no call. -/
def refusal? (s : Store) (v : Value) (member : String) : Option Fault :=
  match s.extra? v member with
  | some (.type _) => none
  | some w => some (.notCallable w.kindName)
  | none => none

/-- The value of an expression under an assignment. Whether a variable without a value is passed
over is asked only when there is one. -/
def evaluate (s : Store) (expression assignment ignoreMissing : Value) : Except Fault Value := do
  match s.refusal? expression "evaluate", expression with
  | some f, _ => throw f
  | none, .object ⟨.linear, id⟩ =>
    let evaluate (ignore : Bool) : Except Fault (Number Float) :=
      (s.linear id).evaluate (s.assigned? assignment) ignore
    match evaluate false with
    | .error (.unassigned var) =>
      if ← s.isTrue ignoreMissing then return (← evaluate true).toValue .real
      else throw (.unassigned var)
    | x => x.map (·.toValue .real)
  | none, v => throw (v.lacks "evaluate")

/-- The objective value of a result, computed and kept if it is not there yet. -/
def objectiveOf (id : Nat) : Action Store Value := do
  let s ← Action.read
  let r := s.result id
  match r.objectiveValue, r.objective with
  | .none, .none => return .none
  | .none, objective =>
    let v ← distinguish (← .ofExcept (s.evaluate objective r.primal (.bool false)))
    changeResult id (·.filled v)
    return v
  | v, _ => return v

end Milp.Store
