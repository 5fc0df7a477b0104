import Milp.Number.Numeric
import Milp.Problem.Basic

/-!
# Rows

A constraint as a row: the range that its left-hand side has to lie in. A constraint without terms
holds or fails by itself.
-/

namespace Milp

variable {K : Type} [Numeric K]

/-- A range of numbers. -/
structure Range (K : Type) where
  lower : K
  upper : K
  deriving Repr, DecidableEq

def Range.contains (r : Range K) (x : K) : Bool :=
  Numeric.le r.lower x && Numeric.le x r.upper

def Relation.range (r : Relation) (rhs : K) : Range K :=
  match r with
  | .le => ⟨Numeric.negInf, rhs⟩
  | .ge => ⟨rhs, Numeric.posInf⟩
  | .eq => ⟨rhs, rhs⟩

namespace Constraint

/-- The range that the left-hand side has to lie in. -/
def range (c : Constraint) : Except Fault (Range K) :=
  (Numeric.ofValue c.rhs).map c.relation.range

/-- A constraint without terms holds. -/
def holdsWithoutTerms (K : Type) [Numeric K] (c : Constraint) : Except Fault Bool := do
  let r : Range K ← c.range
  return r.contains Numeric.zero

end Constraint

/-- Every constraint holds without terms; the first that does not ends the search. -/
def allHoldWithoutTerms (K : Type) [Numeric K] (cs : Series Constraint) : Except Fault Bool :=
  go cs.items
where
  go : List Constraint → Except Fault Bool
    | [] => (cs.finish "rhs").map fun _ => true
    | c :: rest => do
      if ← c.holdsWithoutTerms K then go rest
      else return false

/-- How a problem without variables ends: every constraint is one without terms. -/
def Problem.statusWithoutVariables (K : Type) [Numeric K] (p : Problem) : Except Fault Status := do
  return if ← allHoldWithoutTerms K p.constraints then .optimal else .infeasible

end Milp
