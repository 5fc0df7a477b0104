/-!
# Symbols

The closed vocabularies of the model: relations, senses, domains, parameters and outcomes, and the
families of engines. Each symbol has a name, and stands for a text or a number that can be written
instead of it.
-/

namespace Milp

/-- How the two sides of a constraint are related. -/
inductive Relation where
  | le
  | eq
  | ge
  deriving Repr, DecidableEq, Inhabited

/-- Whether an objective is made small or large. -/
inductive Sense where
  | min
  | max
  deriving Repr, DecidableEq, Inhabited

/-- The values a variable may take. -/
inductive Domain where
  | real
  | int
  | bool
  deriving Repr, DecidableEq, Inhabited

/-- The settings that every engine understands in some way. -/
inductive Parameter where
  | timeout
  | verbose
  | postsolve
  | gap
  | threads
  deriving Repr, DecidableEq, Inhabited

/-- How a solve ended. -/
inductive Status where
  | optimal
  | feasible
  | infeasible
  | unbounded
  | timeLimit
  | error
  | unknown
  deriving Repr, DecidableEq, Inhabited

/-- The engines, each with a way of its own to be given a model. -/
inductive Backend where
  | highs
  | scipy
  | cpsat
  | pyomo
  | gurobi
  deriving Repr, DecidableEq, Inhabited

/-! ## Names and values -/

def Relation.sign : Relation → String
  | .le => "<="
  | .eq => "="
  | .ge => ">="

def Relation.ofSign? : String → Option Relation
  | "<=" => some .le
  | "=" => some .eq
  | ">=" => some .ge
  | _ => none

def Relation.name : Relation → String
  | .le => "LE"
  | .eq => "EQ"
  | .ge => "GE"

def Sense.word : Sense → String
  | .min => "min"
  | .max => "max"

def Sense.ofWord? : String → Option Sense
  | "min" => some .min
  | "max" => some .max
  | _ => none

def Sense.name : Sense → String
  | .min => "MIN"
  | .max => "MAX"

def Domain.word : Domain → String
  | .real => "real"
  | .int => "int"
  | .bool => "bool"

def Domain.name : Domain → String
  | .real => "REAL"
  | .int => "INT"
  | .bool => "BOOL"

def Domain.isInt : Domain → Bool
  | .real => false
  | .int => true
  | .bool => true

def Parameter.code : Parameter → Nat
  | .timeout => 0
  | .verbose => 1
  | .postsolve => 2
  | .gap => 3
  | .threads => 4

def Parameter.ofCode? : Int → Option Parameter
  | 0 => some .timeout
  | 1 => some .verbose
  | 2 => some .postsolve
  | 3 => some .gap
  | 4 => some .threads
  | _ => none

def Parameter.name : Parameter → String
  | .timeout => "TIMEOUT"
  | .verbose => "VERBOSE"
  | .postsolve => "POSTSOLVE"
  | .gap => "GAP"
  | .threads => "THREADS"

def Status.word : Status → String
  | .optimal => "optimal"
  | .feasible => "feasible"
  | .infeasible => "infeasible"
  | .unbounded => "unbounded"
  | .timeLimit => "time_limit"
  | .error => "error"
  | .unknown => "unknown"

def Status.name : Status → String
  | .optimal => "OPTIMAL"
  | .feasible => "FEASIBLE"
  | .infeasible => "INFEASIBLE"
  | .unbounded => "UNBOUNDED"
  | .timeLimit => "TIME_LIMIT"
  | .error => "ERROR"
  | .unknown => "UNKNOWN"

/-- The outcome comes with an assignment. -/
def Status.hasSolution : Status → Bool
  | .optimal => true
  | .feasible => true
  | _ => false

/-! ## All of them -/

/-- A member of one of the vocabularies. -/
inductive Symbol where
  | relation (r : Relation)
  | sense (s : Sense)
  | domain (d : Domain)
  | parameter (p : Parameter)
  | status (s : Status)
  deriving Repr, DecidableEq, Inhabited

namespace Symbol

/-- The name of the vocabulary. -/
def family : Symbol → String
  | .relation _ => "Operator"
  | .sense _ => "OptType"
  | .domain _ => "VarType"
  | .parameter _ => "Parameter"
  | .status _ => "SolveStatus"

def name : Symbol → String
  | .relation r => r.name
  | .sense s => s.name
  | .domain d => d.name
  | .parameter p => p.name
  | .status s => s.name

/-- The plain text of a symbol: relations and outcomes show what they stand for, senses and domains
their name, parameters their number. -/
def text : Symbol → String
  | .relation r => r.sign
  | .sense s => s.name
  | .domain d => d.name
  | .parameter p => Nat.repr p.code
  | .status s => s.word

def fullName (s : Symbol) : String :=
  s.family ++ "." ++ s.name

def all : List Symbol :=
  [Relation.le, .eq, .ge].map .relation ++ [Sense.min, .max].map .sense ++
    [Domain.real, .int, .bool].map .domain ++
    [Parameter.timeout, .verbose, .postsolve, .gap, .threads].map .parameter ++
    [Status.optimal, .feasible, .infeasible, .unbounded, .timeLimit, .error, .unknown].map .status

def ofFullName? (name : String) : Option Symbol :=
  all.find? fun s => s.fullName == name

end Symbol

/-! ## Reading what was written -/

@[simp] theorem Relation.ofSign?_sign (r : Relation) : Relation.ofSign? r.sign = some r := by
  cases r <;> rfl

@[simp] theorem Sense.ofWord?_word (s : Sense) : Sense.ofWord? s.word = some s := by
  cases s <;> rfl

@[simp] theorem Parameter.ofCode?_code (p : Parameter) : Parameter.ofCode? p.code = some p := by
  cases p <;> rfl

/-- No two parameters have the same number. -/
theorem Parameter.code_inj {p q : Parameter} : p.code = q.code ↔ p = q :=
  ⟨fun h => Option.some.inj (by rw [← ofCode?_code p, ← ofCode?_code q, h]), congrArg code⟩

theorem Symbol.mem_all (s : Symbol) : s ∈ Symbol.all := by
  rcases s with s | s | s | s | s <;> cases s <;> simp [Symbol.all]

end Milp
