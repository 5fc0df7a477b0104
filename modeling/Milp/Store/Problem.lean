import Milp.Store.Conversion
import Milp.Store.Linear

/-!
# Calls on constraints and problems

A problem keeps copies of the expressions it is given, except that a constraint handed over as it
is stays the same object.
-/

namespace Milp.Store

/-- Makes a constraint. Without a name it is named by its text. -/
def makeConstraint (lhs operator rhs name : Value) : Action Store Value := do
  let r ← .ofExcept (Relation.ofValue operator)
  let operator : Value := .symbol (.relation r)
  match name with
  | .none =>
    let own ← write (Constraint.phrase lhs operator rhs)
    newConstraint ⟨lhs, operator, rhs, .text own⟩
  | name => newConstraint ⟨lhs, operator, rhs, name⟩

def constraintOfCopy (lhs operator rhs name : Value) : Action Store Value := do
  let s ← Action.read
  let copy ← newLinear (← .ofExcept (s.linearOf lhs))
  makeConstraint copy operator rhs name

def variableOf : Value → Except Fault Value
  | .term v _ => .ok v
  | v => .error (v.lacks "variable")

def registerTerms (id : Nat) (v : Value) : Action Store Unit := do
  let s ← Action.read
  let w := s.walk v
  w.items.forM fun t => do
    let var ← .ofExcept (variableOf t)
    onDeclarations id (Declarations.register var)
  .ofExcept (w.finish "")

def append (list v : Value) : Action Store Unit := do
  match list with
  | .object ⟨.list, id⟩ => changeList id fun xs => xs ++ [v]
  | other => throw (other.lacks "append")

/-- The left-hand side of the constraint that a value is. -/
def lhsOf (s : Store) : Value → Value
  | .object ⟨.constraint, id⟩ => (s.constraint id).lhs
  | _ => .none

def takeConstraint (id : Nat) (constraint : Value) : Action Store Value := do
  registerTerms id ((← Action.read).lhsOf constraint)
  append ((← Action.read).problem id).constraints constraint
  return constraint

/-- Adds a constraint to a problem: one that was made before, or one made of its parts, with its
name in front of them or apart. A constraint made before that is given another name is copied. -/
def addToProblem (id : Nat) (parts : List Value) (name : Value) : Action Store Value := do
  match parts with
  | [.object ⟨.constraint, c⟩] =>
    if name.isNone then takeConstraint id (.object ⟨.constraint, c⟩)
    else
      let o := (← Action.read).constraint c
      takeConstraint id (← constraintOfCopy o.lhs o.operator o.rhs name)
  | [lhs, operator, rhs] => takeConstraint id (← constraintOfCopy lhs operator rhs name)
  | [own, lhs, operator, rhs] =>
    if name.isNone then takeConstraint id (← constraintOfCopy lhs operator rhs own)
    else throw .constraintNamedTwice
  | _ => throw .constraintLayout

/-- The sense that a value stands for by its text. One whose text cannot be written for want of a
proper value stands for none. -/
def senseOf (given : Value) : Action Store (Option Sense) := do
  match ← attempt (textOf given) with
  | .ok text => return Sense.named? given text
  | .error f => if f.cls = .value then return none else throw f

/-- Sets the sense. A value that stands for none is noted and passed over. -/
def setSense (id : Nat) (given : Value) : Action Store Unit := do
  match ← senseOf given with
  | some s => changeProblem id fun p => { p with sense := .symbol (.sense s) }
  | none =>
    let current := ((← Action.read).problem id).sense
    .note .warning .problem ("Unknown optimization type " ++ Phrase.literal given ++
      " (current optimization type is " ++ Phrase.plain current ++ ")")

def madeOnProblem (id : Nat) (call : String) (args : List Value) (own : Action Store Unit) :
    Action Store Unit := do
  let _ ← unlessReplaced (.object ⟨.problem, id⟩) call args do
    own
    return .none

/-- Sets the objective to a copy of an expression, and the sense if one is given. -/
def setObjective (id : Nat) (objective sense : Value) : Action Store Unit := do
  registerTerms id objective
  let s ← Action.read
  let copy ← newLinear (← .ofExcept (s.linearOf objective))
  changeProblem id fun p => { p with objective := copy }
  if !sense.isNone then
    madeOnProblem id "set_optimization_type" [sense] (setSense id sense)

def setBounds (id : Nat) (lower var upper : Value) : Action Store Unit := do
  madeOnProblem id "set_var_lower_bound" [var, lower]
    (onDeclarations id (Declarations.setLower var lower))
  madeOnProblem id "set_var_upper_bound" [var, upper]
    (onDeclarations id (Declarations.setUpper var upper))

def setBoundsAndDomain (id : Nat) (lower var upper given : Value) : Action Store Unit := do
  madeOnProblem id "set_var_bounds" [lower, var, upper] (setBounds id lower var upper)
  madeOnProblem id "set_var_type" [var, given]
    (onDeclarations id (Declarations.setDomain var given))

def domainOf (s : Store) (id : Nat) (v : Value) : Except Fault Domain := do
  v.checkKey
  return (s.problem id).domainOf v

def lowerOf (s : Store) (id : Nat) (v : Value) : Except Fault Value := do
  return .ofOption (← (s.problem id).lowers.lookup v)

def upperOf (s : Store) (id : Nat) (v : Value) : Except Fault Value := do
  return .ofOption (← (s.problem id).uppers.lookup v)

end Milp.Store
