import Milp.Solver.Adapter
import Milp.Store.Evaluate

/-!
# Views of the store

Expressions, constraints, problems and solvers as the engines see them: what the objects of the
store hold at one moment. What stands in the place of an expression or of the constraints is viewed
as far as it can be gone through.
-/

namespace Milp.Store

def viewExpression (s : Store) (v : Value) : Expression :=
  match v with
  | .object ⟨.linear, id⟩ =>
    match s.refusal? v "evaluate" with
    | some f => .altered (s.linear id) "evaluate" f
    | none => .linear (s.linear id)
  | v => .other v (s.pairs v)

def viewConstraint (s : Store) (id : Nat) : Constraint :=
  let c := s.constraint id
  ⟨s.viewExpression c.lhs, c.operator, c.rhs, c.name⟩

/-- The constraints that values are, up to the first that is none. -/
def viewAll (s : Store) : List Value → List Constraint × Option Value
  | [] => ([], none)
  | .object ⟨.constraint, id⟩ :: vs =>
    let (cs, v) := s.viewAll vs
    (s.viewConstraint id :: cs, v)
  | v :: _ => ([], some v)

def viewConstraints (s : Store) (v : Value) : Series Constraint :=
  let w := s.walk v
  let length := s.length v
  match s.viewAll w.items with
  | (cs, some stranger) => ⟨cs, .stranger stranger, length⟩
  | (cs, none) => ⟨cs, w.ending, length⟩

/-- The sense that a value is; what is none asks for small values. -/
def viewSense : Value → Sense
  | .symbol (.sense s) => s
  | _ => .min

/-- The problem with a number, as it stands. -/
def viewProblem (s : Store) (id : Nat) : Problem :=
  let p := s.problem id
  { p.toDeclarations with
    objective := p.objective.toOption.map s.viewExpression
    sense := viewSense p.sense
    constraints := s.viewConstraints p.constraints }

/-- The solver with a number, as it stands. -/
def viewSolver (s : Store) (id : Nat) : Solver :=
  let x := s.solver id
  ⟨x.backend, x.name, s.dict x.parameters, x.hooks, x.lastStatus⟩

end Milp.Store
