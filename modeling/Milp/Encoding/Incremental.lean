import Milp.Encoding.Matrix

/-!
# The incremental form

A problem handed over piece by piece: variables in order of columns, then constraints in order, then
the objective. Terms are handed over as they stand; a bound that is absent is a very large number.
-/

namespace Milp

variable {K : Type} [Numeric K]

/-- A variable, with a name by column. -/
structure PieceVariable (K : Type) where
  name : String
  domain : Domain
  lower : K
  upper : K
  deriving Repr, DecidableEq

/-- A constraint, with a name by number. -/
structure PieceRow (K : Type) where
  name : String
  terms : List (Int × K)
  relation : Relation
  rhs : K
  deriving Repr, DecidableEq

/-- An objective with its sense. -/
structure PieceObjective (K : Type) where
  terms : List (Int × K)
  sense : Sense
  deriving Repr, DecidableEq

/-- The pieces that have been handed over. -/
structure Incremental (K : Type) where
  vars : List (PieceVariable K)
  rows : List (PieceRow K)
  objective : Option (PieceObjective K)
  deriving Repr, DecidableEq

namespace Incremental

/-- What stands for an absent bound. -/
def large : K := Numeric.ofFloat 1e100

def variableOf (p : Problem) (e : Value × Int) : Except Fault (PieceVariable K) := do
  let bounds ← p.effectiveBounds e.1
  let lower ← match bounds.lower with
    | some b => Numeric.ofValue b
    | none => pure (-large)
  let upper ← match bounds.upper with
    | some b => Numeric.ofValue b
    | none => pure large
  return ⟨"x" ++ Int.repr e.2, p.domainOf e.1, lower, upper⟩

/-- The terms of an expression. All coefficients are read before the first column is looked up. -/
def termsOf (index : Index) (e : Expression) : Except Fault (List (Int × K)) := do
  let l ← e.having "coefficients"
  let coefficients ← l.coefficients.mapM Numeric.ofValue
  let columns ← l.vars.mapM index.require
  return columns.zip coefficients

/-- The relation that an operator is; nothing else has a sign. -/
def givenRelation (operator : Value) : Except Fault Relation := do
  operator.checkKey
  match operator with
  | .symbol (.relation r) => return r
  | v => throw (.missingKey v)

def rowOf (index : Index) (c : Constraint × Nat) : Except Fault (PieceRow K) := do
  let terms ← termsOf index c.1.lhs
  let relation ← givenRelation c.1.operator
  let rhs ← Numeric.ofValue c.1.rhs
  return ⟨"c" ++ Nat.repr c.2, terms, relation, rhs⟩

end Incremental

end Milp
