import Milp.Encoding.Columns
import Milp.Linear.Evaluate

/-!
# Solutions

The values an engine found, by variable, with the objective value and the duals it reported. Values
of integral variables are rounded to the nearest whole number, halves upward.
-/

namespace Milp

variable {K : Type} [Numeric K]

/-- A value that an engine reports: a number, or as it was written. -/
inductive Reported (K : Type) where
  | number (x : Number K)
  | written (v : Value)
  deriving Repr

namespace Reported

def neg : Reported K → Except Fault (Reported K)
  | number x => .ok (number x.neg)
  | written v => v.negated.map written

/-- What is reported, as a value. -/
def toValue (value : K → Value) : Reported K → Value
  | number x => x.toValue value
  | written v => v

/-- What is reported, as a number. -/
def read : Reported K → Except Fault K
  | number x => x.toNumeric
  | written v => Numeric.ofValue v

def given : Reported K → Option (Reported K)
  | written .none => none
  | r => some r

end Reported

/-- What an engine found. -/
structure Solution (K : Type) where
  primal : Table (Number K)
  /-- Reduced costs by variable, and row duals by name of constraint. -/
  dual : Table K
  /-- The objective value, if the engine reported one. -/
  objectiveValue : Option (Reported K)
  deriving Repr

namespace Solution

def roundValue (d : Domain) (raw : K) : Except Fault (Number K) :=
  if d.isInt then (Numeric.floor (raw + Numeric.half)).map .whole else .ok (.real raw)

/-- Reads the value of every variable of a problem. -/
def extract (d : Declarations) (raw : Value → Except Fault K)
    (objectiveValue : Option (Reported K)) : Except Fault (Solution K) := do
  let primal ← d.variableList.foldlM (fun t v => do
    let x ← raw v
    let n ← roundValue (d.domainOf v) x
    return t.insert v n) Table.empty
  return ⟨primal, .empty, objectiveValue⟩

/-- Enters duals, the later ones replacing the earlier ones under the same key. -/
def withDuals (s : Solution K) (duals : Table K) : Solution K :=
  { s with dual := s.dual.insertAll duals.entries }

def enterDuals (s : Solution K) (duals : Table (Reported K)) : Except Fault (Solution K) := do
  let read ← duals.entries.mapM fun e => do return (e.1, ← e.2.read)
  return s.withDuals ⟨read⟩

/-- The value of an expression at the solution, where every variable of it has one. -/
def evaluate (s : Solution K) (l : Linear) : Except Fault (Number K) :=
  l.evaluate (fun v => do return (← s.primal.lookup v).map Number.operand) false

end Solution

/-- The entries of a list by the variables whose columns they stand in. -/
def Index.values {α : Type} (index : Index) (xs : List α) (missing : Nat → Fault) :
    Except Fault (Table α) := do
  let es ← index.entries.mapM fun e =>
    match xs[e.2.toNat]? with
    | some x => pure (e.1, x)
    | none => throw (missing e.2.toNat)
  return ⟨es⟩

end Milp
