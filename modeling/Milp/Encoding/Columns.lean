import Milp.Problem.Basic
import Milp.Value.Order

/-!
# Columns

The variables of a problem as columns: a number for each in order of registration, the bounds that
an engine is given, and whether the column is integral.
-/

namespace Milp

/-- The columns of variables. -/
abbrev Index := Table Int

/-- Bounds, each of which may be absent. -/
structure Bounds (α : Type) where
  lower : Option α
  upper : Option α
  deriving Repr, DecidableEq

/-- The columns of a problem as parallel lists. -/
structure Columns (K : Type) where
  lower : List K
  upper : List K
  integral : List Bool
  deriving Repr, DecidableEq

/-- A whole number as a place in a sequence; negative ones count from the end. -/
def place (length : Nat) (n : Int) : Option Nat :=
  if 0 ≤ n then (if n < length then some n.toNat else none)
  else if 0 ≤ n + length then some (n + length).toNat else none

/-- The place of a column among so many. -/
def columnPlace (length : Nat) (j : Int) : Except Fault Nat :=
  match place length j with
  | some i => .ok i
  | none => .error (.placeOutOfRange j 0 length)

/-- The places that a column stands for among so many: its own. -/
def columnPlaces (length : Nat) (j : Int) : Except Fault (List Nat) :=
  (columnPlace length j).map fun i => [i]

def setPlaces {α : Type} (xs : List α) (places : List Nat) (x : α) : List α :=
  places.foldl (fun xs i => xs.set i x) xs

namespace Declarations

/-- The column of every registered variable. -/
def index (d : Declarations) : Index :=
  ⟨d.variableList.zipIdx.map fun e => (e.1, (e.2 : Int))⟩

/-- The bounds that an engine is given for a variable. A boolean one lies between zero and one; an
explicit lower bound above zero forces it to one, an explicit upper bound below one to zero. -/
def effectiveBounds (d : Declarations) (v : Value) : Except Fault (Bounds Value) := do
  let lower := d.lowers.get? v
  let upper := d.uppers.get? v
  match d.domainOf v with
  | .bool =>
    let forcedUp ← (lower.map (·.isAbove (.int 0))).getD (pure false)
    let forcedDown ← (upper.map (·.isBelow (.int 1))).getD (pure false)
    return ⟨some (.int (if forcedUp then 1 else 0)), some (.int (if forcedDown then 0 else 1))⟩
  | _ => return ⟨lower, upper⟩

variable {K γ : Type} [Numeric K]

/-- Enters one variable into the columns, at the places that its column stands for. -/
def enterColumn (d : Declarations) (places : γ → Except Fault (List Nat)) (cs : Columns K)
    (e : Value × γ) : Except Fault (Columns K) := do
  let enter {α : Type} (xs : List α) (x : α) : Except Fault (List α) := do
    return setPlaces xs (← places e.2) x
  let bounds ← d.effectiveBounds e.1
  let lower ← match bounds.lower with
    | none => pure cs.lower
    | some b => enter cs.lower (← Numeric.ofValue b)
  let upper ← match bounds.upper with
    | none => pure cs.upper
    | some b => enter cs.upper (← Numeric.ofValue b)
  let integral ← if (d.domainOf e.1).isInt then enter cs.integral true else pure cs.integral
  return ⟨lower, upper, integral⟩

/-- The columns of variables, whatever their columns are: absent bounds are infinite. -/
def columnsAt (d : Declarations) (places : γ → Except Fault (List Nat)) (index : Table γ) :
    Except Fault (Columns K) :=
  let n := index.size
  index.entries.foldlM (d.enterColumn places)
    ⟨List.replicate n Numeric.negInf, List.replicate n Numeric.posInf, List.replicate n false⟩

def columns (d : Declarations) (index : Index) : Except Fault (Columns K) :=
  d.columnsAt (columnPlaces index.size) index

/-- Some variable is not a real one. -/
def hasIntegers (d : Declarations) (index : Index) : Bool :=
  index.keys.any fun v => (d.domainOf v).isInt

end Declarations

end Milp
