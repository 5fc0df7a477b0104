import Milp.Encoding.Matrix

/-!
# The symbolic form

A problem restated row by row: domains and bounds for the variables, a row for every constraint with
terms, and an objective. A constraint without terms is decided on the spot: one that fails leaves
nothing to solve, one that holds is left out.

The form keeps bounds as they were written and coefficients as they are; a plugin that is given it
reads the numbers off. Coefficients of one column are taken together then, whole ones exactly.

The form is a `ConcreteModel` of Pyomo, so two things here are Pyomo's own and follow its manual:
what may stand in the product of a coefficient and a variable (`coefficientOf`), and what a plugin
takes from the model (`read`): the bounds of a component, of which an infinity on the wrong side or
an undefined number is none, and the linear form of an expression, with one coefficient for each
variable.
-/

namespace Milp

variable {K : Type} [Numeric K]

/-- A variable of the symbolic form, with its bounds as they were written. -/
structure SymbolicVariable where
  domain : Domain
  bounds : Bounds Value
  deriving Repr

/-- A row of the symbolic form: the number of its constraint, its terms in order, and its sides. -/
structure SymbolicRow (K : Type) where
  number : Nat
  terms : List (Nat × Number K)
  bounds : Bounds K
  deriving Repr

/-- A problem restated row by row. -/
structure Symbolic (K : Type) where
  vars : List SymbolicVariable
  rows : List (SymbolicRow K)
  /-- The terms of the objective in order; none for a problem that only asks for a solution. -/
  objective : List (Nat × Number K)
  maximize : Bool
  duals : Bool
  deriving Repr

/-- A variable as a plugin reads it. -/
structure PluginVariable (K : Type) where
  domain : Domain
  bounds : Bounds K
  deriving Repr, DecidableEq

/-- A row as a plugin reads it: the number of its constraint, its entries, and its sides. -/
structure PluginRow (K : Type) where
  number : Nat
  entries : SparseRow K
  bounds : Bounds K
  deriving Repr, DecidableEq

/-- The symbolic form as a plugin reads it. -/
structure PluginModel (K : Type) where
  vars : List (PluginVariable K)
  rows : List (PluginRow K)
  objective : SparseRow K
  maximize : Bool
  duals : Bool
  deriving Repr, DecidableEq

namespace Symbolic

/-! ## Stating a problem -/

def sides (r : Relation) (rhs : K) : Bounds K :=
  match r with
  | .le => ⟨none, some rhs⟩
  | .ge => ⟨some rhs, none⟩
  | .eq => ⟨some rhs, some rhs⟩

def variableOf (p : Problem) (v : Value) : Except Fault SymbolicVariable := do
  return ⟨p.domainOf v, ← p.effectiveBounds v⟩

/-- A coefficient by which a symbol is multiplied. The product `coefficient * x` is the symbol's: its
numeric types are the numbers without the truth values (`native_numeric_types`), a type that it does
not know is refused, and a sequence is left to repeat itself, for which a symbol is no count. -/
def coefficientOf (v : Value) : Except Fault (Number K) :=
  match v with
  | .bool _ => .error (.unsupported "*" "bool" "VarData")
  | .text _ => .error (.notRepeatable "VarData")
  | .tuple _ => .error (.notRepeatable "VarData")
  | .term _ _ => .error (.notRepeatable "VarData")
  | .object ⟨.list, _⟩ => .error (.notRepeatable "VarData")
  | .scalar (.flag _) => .error (.unsupported "*" "bool" "VarData")
  | v =>
    match v.toInt? with
    | some n => .ok (.whole n)
    | none =>
      if v.isReal then (Numeric.ofValue v).map .real
      else .error (.unsupported "*" v.kindName "VarData")

def entry (index : Index) (t : Term) : Except Fault (Nat × Number K) := do
  let j ← index.require t.var
  let x ← coefficientOf t.coefficient
  return (j.toNat, x)

/-- An expression as columns with coefficients, in order of terms. -/
def entries (index : Index) (e : Expression) : Except Fault (List (Nat × Number K)) :=
  e.terms.mapM "variable" (entry index)

/-- The row of a constraint, unless it has no terms. -/
def rowOf (index : Index) (c : Constraint × Nat) : Except Fault (Option (SymbolicRow K)) := do
  if ← c.1.lhs.isEmpty then return none
  let terms ← entries index c.1.lhs
  let rhs ← Numeric.ofValue c.1.rhs
  return some ⟨c.2, terms, sides c.1.relation rhs⟩

/-! ## Reading it -/

/-- Adds a coefficient to the entry of a column. -/
def addTerm (j : Nat) (x : Number K) :
    List (Nat × Number K) → Except Fault (List (Nat × Number K))
  | [] => .ok [(j, x)]
  | e :: es =>
    if j < e.1 then .ok ((j, x) :: e :: es)
    else if j = e.1 then do return (j, ← e.2.plus x) :: es
    else do return e :: (← addTerm j x es)

/-- Terms with those of one column taken together, in ascending order of columns; columns without an
effect are left out. -/
def merged (terms : List (Nat × Number K)) : Except Fault (SparseRow K) := do
  let sums ← terms.foldlM (fun es t => addTerm t.1 t.2 es) []
  (sums.filter fun e => !e.2.isZero).mapM fun e => do return (e.1, ← e.2.toNumeric)

/-- A number as the bound of a component on a side: none if it is the infinity of that side. Any
other infinity is no bound, and neither is an undefined number. -/
def sideOf (component : String) (side : Side) (x : K) : Except Fault (Option K) :=
  match side, Numeric.view x with
  | _, .finite _ => .ok (some x)
  | .lower, .negInf => .ok none
  | .upper, .posInf => .ok none
  | side, .negInf => .error (.nonFinite component side "-inf")
  | side, .posInf => .error (.nonFinite component side "inf")
  | side, .notANumber => .error (.nonFinite component side "nan")

/-- The number of a bound: that of a number, or of the text of one. -/
def boundOf (v : Value) : Except Fault K :=
  match v, v.number? with
  | .text t, _ => Numeric.ofValue (.text t)
  | v, some _ => Numeric.ofValue v
  | v, none => .error (.unknownKind v.bareKindName)

def readBounds (component : String) (b : Bounds K) : Except Fault (Bounds K) := do
  let side (side : Side) (x : Option K) : Except Fault (Option K) :=
    match x with
    | none => .ok none
    | some x => sideOf component side x
  return ⟨← side .lower b.lower, ← side .upper b.upper⟩

/-- A variable as it is read, given its column. The lower bound is read before the upper one. -/
def readVariable (v : SymbolicVariable × Nat) : Except Fault (PluginVariable K) := do
  let component := "Var 'x[" ++ Nat.repr v.2 ++ "]'"
  let side (side : Side) (b : Option Value) : Except Fault (Option K) :=
    match b with
    | none => .ok none
    | some b => do sideOf component side (← boundOf b)
  return ⟨v.1.domain, ⟨← side .lower v.1.bounds.lower, ← side .upper v.1.bounds.upper⟩⟩

def readRow (r : SymbolicRow K) : Except Fault (PluginRow K) := do
  let entries ← merged r.terms
  return ⟨r.number, entries,
    ← readBounds ("Constraint 'rows[" ++ Nat.repr r.number ++ "]'") r.bounds⟩

/-- The form as a plugin's writer reads it: variables first, then rows, then the objective. -/
def read (m : Symbolic K) : Except Fault (PluginModel K) := do
  let vars ← m.vars.zipIdx.mapM readVariable
  let rows ← m.rows.mapM readRow
  let objective ← merged m.objective
  return ⟨vars, rows, objective, m.maximize, m.duals⟩

end Symbolic

/-- The constraints without terms hold; the first that does not ends the search. -/
def emptyRowsHold (K : Type) [Numeric K] (cs : Series Constraint) : Except Fault Bool :=
  go cs.items
where
  go : List Constraint → Except Fault Bool
    | [] => (cs.finish "lhs").map fun _ => true
    | c :: rest => do
      if ← c.lhs.isEmpty then
        if ← c.holdsWithoutTerms K then go rest
        else return false
      else go rest

namespace Problem

/-- The symbolic form of a problem; nothing when a constraint without terms fails. -/
def symbolic (p : Problem) (index : Index) : Except Fault (Option (Symbolic K)) := do
  let vars ← p.variableList.mapM (Symbolic.variableOf p)
  if !(← emptyRowsHold K p.constraints) then return none
  let _ ← p.constraints.length
  let rows ← p.constraints.items.zipIdx.mapM (Symbolic.rowOf index)
  let objective ← match p.objective with
    | some o => do
      if ← o.isEmpty then pure [] else Symbolic.entries index o
    | none => pure []
  return some {
    vars := vars
    rows := rows.filterMap id
    objective := objective
    maximize := !objective.isEmpty && p.sense == .max
    duals := !p.hasIntegers index }

end Problem

end Milp
