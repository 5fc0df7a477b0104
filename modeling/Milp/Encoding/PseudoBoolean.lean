import Milp.Encoding.Whole

/-!
# The pseudo-boolean form

A 0-1 problem in whole numbers, without an objective: rows over columns that are zero or one. A
boolean variable that is forced to one of its values has a row that says so.
-/

namespace Milp

/-- A sum of columns with whole coefficients. A column may occur more than once. -/
structure WholeSum where
  terms : List (Nat × Int)
  deriving Repr, DecidableEq

/-- A relation of a sum to a whole number. -/
structure WholeRow where
  name : String
  lhs : WholeSum
  relation : Relation
  rhs : Int
  deriving Repr

/-- Rows over columns that are zero or one. -/
structure PseudoBoolean where
  columns : Nat
  rows : List WholeRow
  deriving Repr

namespace WholeSum

/-- The value at a point. -/
def eval (s : WholeSum) (x : Nat → Int) : Int :=
  s.terms.foldr (fun t rest => t.2 * x t.1 + rest) 0

/-- The coefficient of a column, taken together. -/
def coefficient (s : WholeSum) (j : Nat) : Int :=
  (s.terms.filter fun t => t.1 == j).foldr (fun t rest => t.2 + rest) 0

def ofExpression (K : Type) [Numeric K] (e : Expression) (index : Index) (engine : Value) :
    Except Fault WholeSum := do
  let (columns, coefficients) ← e.wholeTerms K index engine
  return ⟨(columns.map Int.toNat).zip coefficients⟩

end WholeSum

namespace WholeRow

/-- The least value of the left-hand side, if there is one. -/
def lower? (r : WholeRow) : Option Int :=
  match r.relation with
  | .le => none
  | _ => some r.rhs

/-- The greatest value of the left-hand side, if there is one. -/
def upper? (r : WholeRow) : Option Int :=
  match r.relation with
  | .ge => none
  | _ => some r.rhs

def holds (r : WholeRow) (x : Nat → Int) : Bool :=
  match r.relation with
  | .le => r.lhs.eval x ≤ r.rhs
  | .eq => r.lhs.eval x = r.rhs
  | .ge => r.lhs.eval x ≥ r.rhs

def fix (column : Nat) (value : Int) : WholeRow :=
  ⟨"", ⟨[(column, 1)]⟩, .eq, value⟩

/-- The name of a row: a text, and none for an absent name and for other things that count as
nothing. -/
def nameOf : Value → Except Fault String
  | .text s => .ok s
  | .none => .ok ""
  | .tuple [] => .ok ""
  | v => if v.number? = some (.finite 0) then .ok "" else .error .notName

/-- The row of a constraint, which is named once it was found to fit. -/
def ofConstraint (K : Type) [Numeric K] (fits : WholeRow → Except Fault Unit) (index : Index)
    (engine : Value) (c : Constraint) : Except Fault WholeRow := do
  let lhs ← WholeSum.ofExpression K c.lhs index engine
  let rhs ← c.rhs.toWhole K engine (.named (.text "right-hand side"))
  let row : WholeRow := ⟨"", lhs, c.relation, rhs⟩
  fits row
  return { row with name := ← nameOf c.name }

def cut (objective : WholeSum) (maximize : Bool) (bound : Int) : WholeRow :=
  ⟨"", objective, if maximize then .ge else .le, bound⟩

end WholeRow

namespace PseudoBoolean

def add (m : PseudoBoolean) (r : WholeRow) : PseudoBoolean :=
  { m with rows := m.rows ++ [r] }

def holds (m : PseudoBoolean) (x : Nat → Int) : Bool :=
  m.rows.all (·.holds x)

@[simp] theorem holds_add (m : PseudoBoolean) (r : WholeRow) (x : Nat → Int) :
    (m.add r).holds x = (m.holds x && r.holds x) := by
  simp [add, holds]

end PseudoBoolean

namespace Problem

def fixingRows (p : Problem) (e : Value × Int) : Except Fault (List WholeRow) := do
  let bounds ← p.effectiveBounds e.1
  let raised := match bounds.lower with
    | some b => b.same (.int 1)
    | none => false
  let lowered := match bounds.upper with
    | some b => b.same (.int 0)
    | none => false
  return (if raised then [WholeRow.fix e.2.toNat 1] else []) ++
    (if lowered then [WholeRow.fix e.2.toNat 0] else [])

/-- The pseudo-boolean form of a problem, all rows of which fit. -/
def pseudoBoolean (K : Type) [Numeric K] (fits : WholeRow → Except Fault Unit) (p : Problem)
    (index : Index) (engine : Value) : Except Fault PseudoBoolean := do
  let fixed ← index.entries.mapM p.fixingRows
  let rows ← p.constraints.mapM "lhs" (WholeRow.ofConstraint K fits index engine)
  return ⟨index.size, fixed.flatten ++ rows⟩

end Problem

end Milp
