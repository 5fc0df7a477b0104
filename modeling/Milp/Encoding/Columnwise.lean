import Milp.Encoding.Matrix

/-!
# The column-wise form

The matrix form stored by columns: the row numbers and coefficients of all columns one after the
other, with the place where each column starts.
-/

namespace Milp

variable {K : Type} [Numeric K]

/-- A problem with its matrix stored by columns. -/
structure Columnwise (K : Type) where
  columns : Nat
  rows : Nat
  maximize : Bool
  cost : List K
  colLower : List K
  colUpper : List K
  rowLower : List K
  rowUpper : List K
  /-- Where each column starts, and where the last one ends. -/
  start : List Nat
  index : List Nat
  value : List K
  /-- Whether each column is integral; empty when none is. -/
  integral : List Bool
  deriving Repr, DecidableEq

/-- The entries of a column: row numbers with coefficients, in ascending order of rows. -/
def Matrix.column (m : Matrix K) (j : Nat) : List (Nat × K) :=
  m.rows.zipIdx.flatMap fun (row, i) =>
    (row.filter fun e => e.1 == j).map fun e => (i, e.2)

/-- The sums of the first so many numbers, for none, one, and so on to all of them. -/
def partialSums : (sum : Nat) → List Nat → List Nat
  | sum, [] => [sum]
  | sum, n :: ns => sum :: partialSums (sum + n) ns

namespace Problem

/-- The column-wise form of a problem. -/
def columnwise (p : Problem) (index : Index) : Except Fault (Columnwise K) := do
  let cols : Columns K ← p.columns index
  let rows ← p.matrix index
  let cost ← p.cost index
  let count ← p.constraints.length
  let segments := (List.range index.size).map rows.matrix.column
  let entries := segments.flatten
  return {
    columns := index.size
    rows := count
    maximize := p.isMaximize
    cost := cost
    colLower := cols.lower
    colUpper := cols.upper
    rowLower := rows.ranges.map (·.lower)
    rowUpper := rows.ranges.map (·.upper)
    start := partialSums 0 (segments.map (·.length))
    index := entries.map (·.1)
    value := entries.map (·.2)
    integral := if cols.integral.contains true then cols.integral else [] }

end Problem

end Milp
