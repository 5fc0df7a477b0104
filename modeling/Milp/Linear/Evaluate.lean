import Milp.Linear.Basic
import Milp.Number.Numeric
import Milp.Table

/-!
# Evaluating expressions

The value of an expression under an assignment. The sum is formed from left to right in the
arithmetic at hand; it is reported as a whole number when every number that entered it is of an
integral kind. A variable without a value is a fault, or is passed over if the caller wants that.
-/

namespace Milp

variable {K : Type} [Numeric K]

/-- A number that enters a sum: what it is, once it is needed, and whether it is of an integral
kind. -/
structure Operand (K : Type) where
  number : Except Fault K
  integral : Bool

def Value.operand (v : Value) : Operand K :=
  ⟨Numeric.ofValue v, v.isIntegral⟩

def Number.operand : Number K → Operand K
  | .whole n => ⟨Numeric.ofInt n, true⟩
  | .real x => ⟨.ok x, false⟩

/-- The sum so far, and whether only integral numbers entered it. -/
structure Subtotal (K : Type) where
  sum : K
  integral : Bool
  deriving Repr

namespace Subtotal

/-- The empty sum. -/
def start : Subtotal K := ⟨Numeric.zero, true⟩

def add (s : Subtotal K) (coefficient value : Operand K) : Except Fault (Subtotal K) := do
  let c ← coefficient.number
  let v ← value.number
  return ⟨s.sum + c * v, s.integral && (coefficient.integral && value.integral)⟩

/-- A rational number without its fractional part. -/
def truncate (q : Rat) : Int :=
  q.num.tdiv q.den

def total (s : Subtotal K) : Except Fault (Number K) :=
  if s.integral then (Numeric.toIntBy truncate s.sum).map .whole else .ok (.real s.sum)

end Subtotal

namespace Linear

/-- Adds up terms from left to right. -/
def accumulate (value? : Value → Except Fault (Option (Operand K))) (ignoreMissing : Bool) :
    Subtotal K → List Term → Except Fault (Subtotal K)
  | s, [] => .ok s
  | s, t :: ts => do
    match ← value? t.var with
    | some v =>
      let next ← s.add t.coefficient.operand v
      accumulate value? ignoreMissing next ts
    | none =>
      if ignoreMissing then accumulate value? ignoreMissing s ts
      else throw (.unassigned t.var)

/-- The value of an expression under an assignment, which may be undefined for a variable and may
refuse to look one up. -/
def evaluate (l : Linear) (value? : Value → Except Fault (Option (Operand K)))
    (ignoreMissing : Bool) : Except Fault (Number K) := do
  (← accumulate value? ignoreMissing .start l.terms).total

end Linear

/-- Looks a variable up in a table of values; an absent value counts as none. -/
def Table.operand? (t : Table Value) (v : Value) : Except Fault (Option (Operand K)) := do
  return ((← t.lookup v).bind Value.toOption).map Value.operand

end Milp
