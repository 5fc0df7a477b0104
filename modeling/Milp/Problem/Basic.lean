import Milp.Action
import Milp.Constraint
import Milp.Table
import Milp.Text.Case

/-!
# Problems

A mixed-integer linear program: an objective with its sense, constraints in order, and for each
variable a domain and bounds. A variable is registered when it first occurs anywhere, and keeps the
column it is given then.
-/

namespace Milp

/-- What is known of variables. -/
structure Declarations where
  /-- The registered variables in order. -/
  vars : Table Unit
  domains : Table Domain
  lowers : Table Value
  uppers : Table Value
  deriving Repr, Inhabited

/-- A problem. -/
structure Problem extends Declarations where
  objective : Option Expression
  sense : Sense
  constraints : Series Constraint

namespace Declarations

/-- Nothing is known of any variable. -/
def empty : Declarations := ⟨.empty, .empty, .empty, .empty⟩

def register (v : Value) : Action Declarations Unit := do
  .ofExcept v.checkKey
  .update fun d => { d with vars := d.vars.insertNew v () }

/-- The registered variables in order. -/
def variableList (d : Declarations) : List Value :=
  d.vars.keys

def domainOf (d : Declarations) (v : Value) : Domain :=
  (d.domains.get? v).getD .real

def domainNamed? : Value → Option Domain
  | .symbol (.domain d) => some d
  | .type .int => some .int
  | .type .bool => some .bool
  | .type .float => some .real
  | _ => none

def setDomain (v given : Value) : Action Declarations Unit := do
  .ofExcept given.checkKey
  match domainNamed? given with
  | some d =>
    register v
    .update fun s => { s with domains := s.domains.insert v d }
  | none =>
    .note .warning .problem (Phrase.literal given ++ " is an unknown variable type (ignored)")

/-- Sets the lower bound of a variable, or removes it. -/
def setLower (v bound : Value) : Action Declarations Unit := do
  register v
  .update fun d => { d with
    lowers := match bound with
      | .none => d.lowers.erase v
      | _ => d.lowers.insert v bound }

/-- Sets the upper bound of a variable, or removes it. -/
def setUpper (v bound : Value) : Action Declarations Unit := do
  register v
  .update fun d => { d with
    uppers := match bound with
      | .none => d.uppers.erase v
      | _ => d.uppers.insert v bound }

def setBounds (lower v upper : Value) : Action Declarations Unit := do
  setLower v lower
  setUpper v upper

def setBoundsAndDomain (lower v upper given : Value) : Action Declarations Unit := do
  setBounds lower v upper
  setDomain v given

end Declarations

namespace Problem

/-- The problem without any data. -/
def empty : Problem :=
  { Declarations.empty with objective := none, sense := .min, constraints := .ofList [] }

instance : Inhabited Problem := ⟨empty⟩

/-- There is an objective, and it is to be made large. -/
def isMaximize (p : Problem) : Bool :=
  p.objective.isSome && p.sense == .max

end Problem

/-- The sense that a value is, or that a text stands for, letters of either case being the same. -/
def Sense.named? (given : Value) (text : String) : Option Sense :=
  match given with
  | .symbol (.sense s) => some s
  | _ => Sense.ofWord? (Text.toLower text)

end Milp
