import Milp.Encoding.Columns

/-!
# Whole-number data

What an engine for 0-1 problems needs of a problem: boolean variables only, and whole coefficients
and right-hand sides. The checks name the first offender, in the order in which the problem was
stated.
-/

namespace Milp

namespace Declarations

def checkBoolean (d : Declarations) (engine : Value) : Except Fault Unit :=
  d.variableList.forM fun v =>
    match d.domainOf v with
    | .bool => .ok ()
    | domain => .error (.notBoolean v domain engine)

end Declarations

def Value.toWhole (K : Type) [Numeric K] (v engine : Value) (place : Place) :
    Except Fault Int := do
  let x : K ← Numeric.ofValue v
  match Numeric.whole? x with
  | some n => return n
  | Option.none => throw (.notWhole v engine place)

namespace Problem

def checkWholeTerms (K : Type) [Numeric K] (engine : Value) (place : Place) (e : Expression) :
    Except Fault Unit := do
  let _ ← e.terms.mapM "coefficient" fun t => t.coefficient.toWhole K engine place

/-- The coefficients and the right-hand side of a constraint are whole. -/
def checkWholeConstraint (K : Type) [Numeric K] (engine : Value) (c : Constraint) :
    Except Fault Unit := do
  checkWholeTerms K engine (.coefficient c.name) c.lhs
  let _ ← c.rhs.toWhole K engine (.rhs c.name)

def checkWholeObjective (K : Type) [Numeric K] (engine : Value) (objective : Option Expression) :
    Except Fault Unit :=
  objective.forM (checkWholeTerms K engine .objective)

def checkWholeConstraints (K : Type) [Numeric K] (engine : Value) (cs : Series Constraint) :
    Except Fault Unit := do
  let _ ← cs.mapM "lhs" (checkWholeConstraint K engine)

/-- All coefficients and right-hand sides are whole, those of the objective first. -/
def checkWhole (K : Type) [Numeric K] (p : Problem) (engine : Value) : Except Fault Unit := do
  checkWholeObjective K engine p.objective
  checkWholeConstraints K engine p.constraints

end Problem

def Expression.wholeTerms (K : Type) [Numeric K] (e : Expression) (index : Index) (engine : Value) :
    Except Fault (List Int × List Int) := do
  let l ← e.having "variables"
  let columns ← l.vars.mapM index.require
  let coefficients ← l.coefficients.mapM fun c =>
    c.toWhole K engine (.named (.text "coefficient"))
  return (columns, coefficients)

end Milp
