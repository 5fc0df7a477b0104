import Milp.Encoding.Matrix

/-!
# Ranged and split form

A problem as something to be made small: costs, a sparse matrix whose rows lie in ranges, and
bounds. For linear programs the rows are split: every finite side of a range becomes an upper bound,
with the row negated for a lower side, and a range of a single number becomes an equation. The split
form admits the same points as the ranged form.
-/

namespace Milp

variable {K : Type} [Numeric K]

/-- A problem to be made small, with ranges for its rows. -/
structure Ranged (K : Type) where
  cost : List K
  matrix : Matrix K
  rowLower : List K
  rowUpper : List K
  lower : List K
  upper : List K
  /-- One for an integral column, zero for another. -/
  integrality : List Int
  /-- The cost was negated, since the problem is to be made large. -/
  maximize : Bool
  options : Table Value
  deriving Repr

/-- Some column is integral. -/
def Ranged.isMixed (m : Ranged K) : Bool :=
  m.integrality.any (· != 0)

/-- A problem to be made small, with its rows split. -/
structure Split (K : Type) where
  cost : List K
  upperRows : Option (Matrix K × List K)
  /-- Rows with the values they must have, if there are any. -/
  equations : Option (Matrix K × List K)
  bounds : List (Bounds K)
  options : Table Value
  deriving Repr

namespace Ranged

/-- The row is an equation: its range is a single finite number. -/
def isEquation (r : Range K) : Bool :=
  Numeric.isFinite r.lower && Numeric.eq r.lower r.upper

/-- The row has a finite upper side, and is no equation. -/
def hasUpper (r : Range K) : Bool :=
  !isEquation r && Numeric.isFinite r.upper

/-- The row has a finite lower side, and is no equation. -/
def hasLower (r : Range K) : Bool :=
  !isEquation r && Numeric.isFinite r.lower

def ranges (m : Ranged K) : List (Range K) :=
  List.zipWith Range.mk m.rowLower m.rowUpper

/-- The numbers of the rows whose range has a property, in ascending order. -/
def rowsWhere (m : Ranged K) (test : Range K → Bool) : List Nat :=
  (m.ranges.zipIdx.filter fun (r, _) => test r).map (·.2)

def select {α : Type} (xs : List α) (rows : List Nat) : List α :=
  rows.filterMap fun i => xs[i]?

def negated (row : SparseRow K) : SparseRow K :=
  row.map fun e => (e.1, -e.2)

/-- A bound, or nothing for an infinity. -/
def finiteBound (x : K) : Option K :=
  if Numeric.isInfinite x then none else some x

/-! ### Sides that do not match -/

/-- The model with as many lower sides as upper ones; a single one serves for all. -/
def stretched (m : Ranged K) : Except Fault (Ranged K) :=
  match m.rowLower, m.rowUpper with
  | [l], us => .ok { m with rowLower := List.replicate us.length l }
  | ls, [u] => .ok { m with rowUpper := List.replicate ls.length u }
  | ls, us =>
    if ls.length = us.length then .ok m
    else .error (.misfit (.operands [[ls.length], [us.length]]))

/-- Places in a list of a size are those of its entries. -/
def checkPlaces (size : Nat) (places : List Nat) : Except Fault Unit :=
  match places.find? (size ≤ ·) with
  | some i => .error (.placeOutOfRange i 0 size)
  | none => .ok ()

/-- The rows with some numbers are rows of the matrix. The last one that is none is reported. -/
def checkRows (m : Ranged K) (rows : List Nat) : Except Fault Unit :=
  match (rows.filter (m.matrix.rows.length ≤ ·)).max? with
  | some i => .error (.matrixPlace i)
  | none => .ok ()

/-- The model with sides that match, from whose matrix the rows with a finite side can be taken. A
model that was changed may have other sides than rows. -/
def aligned (given : Ranged K) : Except Fault (Ranged K) := do
  let m ← given.stretched
  let uppers := m.rowsWhere hasUpper
  let lowers := m.rowsWhere hasLower
  let equals := m.rowsWhere isEquation
  m.checkRows uppers
  m.checkRows lowers
  checkPlaces given.rowUpper.length uppers
  checkPlaces given.rowLower.length lowers
  m.checkRows equals
  checkPlaces given.rowUpper.length equals
  return m

def split (m : Ranged K) : Split K :=
  let uppers := m.rowsWhere hasUpper
  let lowers := m.rowsWhere hasLower
  let equals := m.rowsWhere isEquation
  let rows := select m.matrix.rows
  { cost := m.cost
    upperRows :=
      if uppers.isEmpty && lowers.isEmpty then none
      else some (⟨m.matrix.width, rows uppers ++ (rows lowers).map negated⟩,
        select m.rowUpper uppers ++ (select m.rowLower lowers).map fun x => -x)
    equations :=
      if equals.isEmpty then none
      else some (⟨m.matrix.width, rows equals⟩, select m.rowUpper equals)
    bounds := List.zipWith (fun l u => ⟨finiteBound l, finiteBound u⟩) m.lower m.upper
    options := m.options.erase (.text "mip_rel_gap") }

end Ranged

namespace Problem

/-- The ranged form of a problem, without options. -/
def ranged (p : Problem) (index : Index) : Except Fault (Ranged K) := do
  let cols : Columns K ← p.columns index
  let rows ← p.matrix index
  let cost ← p.cost index
  return {
    cost := if p.isMaximize then cost.map fun x => -x else cost
    matrix := rows.matrix
    rowLower := rows.ranges.map (·.lower)
    rowUpper := rows.ranges.map (·.upper)
    lower := cols.lower
    upper := cols.upper
    integrality := cols.integral.map fun b => if b then 1 else 0
    maximize := p.isMaximize
    options := .empty }

end Problem

end Milp
