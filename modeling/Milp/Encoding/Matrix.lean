import Milp.Encoding.Columns
import Milp.Encoding.Rows

/-!
# The matrix form

A problem as a sparse matrix with a range for each row, and as a vector of objective coefficients.
The entries of a row stand in ascending order of columns; coefficients of one variable are summed
from left to right, and the sum is kept even when it is zero.
-/

namespace Milp

variable {K γ : Type} [Numeric K]

/-- A row of a sparse matrix: columns with their coefficients, in ascending order of columns. -/
abbrev SparseRow (K : Type) := List (Nat × K)

namespace SparseRow

/-- Adds a coefficient to the entry of a column. -/
def add (j : Nat) (x : K) : SparseRow K → SparseRow K
  | [] => [(j, x)]
  | e :: es =>
    if j < e.1 then (j, x) :: e :: es
    else if j = e.1 then (j, e.2 + x) :: es
    else e :: add j x es

/-- The row of a list of entries, with repeated columns. -/
def ofEntries (es : List (Nat × K)) : SparseRow K :=
  es.foldl (fun row e => add e.1 e.2 row) []

end SparseRow

/-- A sparse matrix. -/
structure Matrix (K : Type) where
  width : Nat
  rows : List (SparseRow K)
  deriving Repr, DecidableEq

/-- A sparse matrix with a range for every row. -/
structure RangedRows (K : Type) where
  matrix : Matrix K
  ranges : List (Range K)
  deriving Repr, DecidableEq

def Term.entry (column : Value → Except Fault γ) (t : Term) : Except Fault (γ × K) := do
  let j ← column t.var
  let x ← Numeric.ofValue t.coefficient
  return (j, x)

/-- An expression as columns with coefficients, in order of terms. -/
def Expression.entries (column : Value → Except Fault γ) (e : Expression) :
    Except Fault (List (γ × K)) :=
  e.terms.mapM "variable" (Term.entry column)

/-- The columns of entries lie within a matrix of a width. A column that is too large is found
before one that is negative. -/
def checkColumns (width : Nat) (columns : List Int) : Except Fault Unit := do
  let greatest := columns.foldl (fun a b => if a < b then b else a) 0
  let least := columns.foldl (fun a b => if b < a then b else a) 0
  if columns.isEmpty then return ()
  if (width : Int) ≤ greatest then throw (.columnExceeds greatest width)
  if least < 0 then throw (.columnNegative least)

def Constraint.row (column : Value → Except Fault γ) (c : Constraint) :
    Except Fault (List (γ × K) × Range K) := do
  let es ← c.lhs.entries column
  let r ← c.range
  return (es, r)

/-- Constraints as a matrix of a width. Columns are whatever is found for variables; when all
constraints have been gone through, the columns are looked at together and read as numbers. -/
def matrixOf (width : Nat) (column : Value → Except Fault γ) (check : List γ → Except Fault Unit)
    (number : γ → Except Fault Int) (constraints : Series Constraint) :
    Except Fault (RangedRows K) := do
  let _ ← constraints.length
  let rows ← constraints.mapM "lhs" (Constraint.row column)
  check (rows.flatMap fun r => r.1.map (·.1))
  let columns ← rows.mapM fun r => r.1.mapM fun e => number e.1
  checkColumns width columns.flatten
  let row (r : (List (γ × K) × Range K) × List Int) : SparseRow K :=
    SparseRow.ofEntries ((r.2.map Int.toNat).zip (r.1.1.map (·.2)))
  return ⟨⟨width, (rows.zip columns).map row⟩, rows.map (·.2)⟩

/-- Adds a term to a vector of coefficients, at the places that its column stands for. -/
def addCost (places : Value → Except Fault (List Nat)) (cost : List K) (t : Term) :
    Except Fault (List K) := do
  let is ← places t.var
  let x ← Numeric.ofValue t.coefficient
  return is.foldl (fun cost i => cost.modify i (· + x)) cost

/-- The coefficients of an objective as a vector of a width; all zero when there is none. -/
def costOf (width : Nat) (places : Value → Except Fault (List Nat))
    (objective : Option Expression) : Except Fault (List K) :=
  let zeros := List.replicate width Numeric.zero
  match objective with
  | none => .ok zeros
  | some o => o.terms.foldlM "variable" (addCost places) zeros

namespace Problem

def matrix (p : Problem) (index : Index) : Except Fault (RangedRows K) :=
  matrixOf index.size index.require (fun _ => .ok ()) pure p.constraints

/-- The objective coefficients of a problem; all zero when it has no objective. -/
def cost (p : Problem) (index : Index) : Except Fault (List K) :=
  costOf index.size (fun v => index.require v >>= columnPlaces index.size) p.objective

end Problem

end Milp
