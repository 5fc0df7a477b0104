import Milp.Grid.Basic
import Milp.Symbol

/-!
# Values

What callers hand in as variables, coefficients, bounds, names and options. A variable is any value
that can be looked up again, and a coefficient is whatever can be read as a number when it is
needed, so one type holds them all.
-/

namespace Milp

/-- The types that can be named. -/
inductive TypeName where
  | int
  | bool
  | float
  | text
  | complex
  | list
  deriving Repr, DecidableEq, Inhabited

/-- The sorts of objects with an identity of their own. -/
inductive ObjectKind where
  | list
  | dict
  | linear
  | constraint
  | problem
  | result
  | outcome
  | bag
  | registry
  | factory
  | solver (backend : Backend)
  | hook
  deriving Repr, DecidableEq, Inhabited

/-- A reference to an object. -/
structure Ref where
  kind : ObjectKind
  id : Nat
  deriving Repr, DecidableEq, Inhabited

/-- A value of any sort. What can change is an object, and a value only mentions it. -/
inductive Value where
  | none
  | bool (b : Bool)
  | int (n : Int)
  | real (x : Float)
  | text (s : String)
  | scalar (s : Scalar)
  /-- An undefined number, told from all others by its number. -/
  | undefined (form : FloatForm) (id : Nat)
  | tuple (items : List Value)
  /-- A coefficient with its variable: a pair that knows the names of its parts. -/
  | term (var coefficient : Value)
  /-- Numbers or answers side by side, as an array library gives them. -/
  | array (g : Grid)
  | sparse (m : SparseArray)
  /-- A record of settings; its fields cannot be written. -/
  | config (name timeLimit gap threads verbose postsolve options : Value)
  | symbol (s : Symbol)
  | type (t : TypeName)
  | object (r : Ref)
  deriving Inhabited, Repr

/-! ## Names of kinds -/

def TypeName.name : TypeName → String
  | .int => "int"
  | .bool => "bool"
  | .float => "float"
  | .text => "str"
  | .complex => "complex"
  | .list => "list"

def ObjectKind.name : ObjectKind → String
  | .list => "list"
  | .dict => "dict"
  | .linear => "Linear"
  | .constraint => "Constraint"
  | .problem => "Problem"
  | .result => "Result"
  | .outcome => "CutLoopOutcome"
  | .bag => "ParameterBag"
  | .registry => "HookRegistry"
  | .factory => "SolverFactory"
  | .solver .highs => "HighsSolver"
  | .solver .scipy => "ScipySolver"
  | .solver .cpsat => "CpSatSolver"
  | .solver .pyomo => "PyomoSolver"
  | .solver .gurobi => "GurobiSolver"
  | .hook => "Hook"

namespace Value

/-- The name of the kind of a value, as faults show it. -/
def kindName : Value → String
  | .none => "NoneType"
  | .bool _ => "bool"
  | .int _ => "int"
  | .real _ => "float"
  | .text _ => "str"
  | .scalar s => "numpy." ++ s.kindName
  | .undefined .free _ => "float"
  | .undefined .single _ => "numpy.float32"
  | .undefined .double _ => "numpy.float64"
  | .tuple _ => "tuple"
  | .term _ _ => "Term"
  | .array _ => "numpy.ndarray"
  | .sparse _ => "csr_matrix"
  | .config .. => "SolverConfig"
  | .symbol s => s.family
  | .type _ => "type"
  | .object r => r.kind.name

/-- The name of the kind of a value without that of its library. -/
def bareKindName : Value → String
  | .scalar s => s.kindName
  | .undefined .single _ => "float32"
  | .undefined .double _ => "float64"
  | .array _ => "ndarray"
  | v => v.kindName

/-- A grid as a value: a single number where it has no rows. -/
def ofGrid (g : Grid) : Value :=
  match g.shape, g.entries with
  | [], [x] => .scalar x
  | _, _ => .array g

/-- The parts of a grid along its first axis. -/
def gridParts (g : Grid) : List Value :=
  g.rows.map ofGrid

def truth? : Value → Option Bool
  | .bool b => some b
  | .scalar (.flag b) => some b
  | _ => Option.none

/-- The whole number that an integral value stands for. -/
def toInt? : Value → Option Int
  | .bool b => some (if b then 1 else 0)
  | .int n => some n
  | .symbol (.parameter p) => some p.code
  | .scalar (.integer _ n) => some n
  | _ => Option.none

/-- The whole number that a value stands for, flags being zero or one. -/
def flagOrInt? : Value → Option Int
  | .scalar s => s.whole?
  | v => v.toInt?

def isNone : Value → Bool
  | .none => true
  | _ => false

/-- Whole numbers of every sort, truth values included; flags of fixed size are not numbers. -/
def isIntegral : Value → Bool
  | .bool _ => true
  | .int _ => true
  | .symbol (.parameter _) => true
  | .scalar (.integer _ _) => true
  | _ => false

/-- Whole numbers and floating point numbers of every sort. -/
def isReal : Value → Bool
  | .real _ => true
  | .scalar (.single _) => true
  | .scalar (.double _) => true
  | .undefined _ _ => true
  | v => v.isIntegral

/-- The value as a choice: absent, or something. -/
def toOption : Value → Option Value
  | .none => Option.none
  | v => some v

def ofOption : Option Value → Value
  | Option.none => .none
  | some v => v

end Value

end Milp
