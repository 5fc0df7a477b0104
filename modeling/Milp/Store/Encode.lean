import Milp.Encoding.Matrix
import Milp.Encoding.Whole
import Milp.Store.Result
import Milp.Store.View

/-!
# Encoding objects

The stages of an encoding one by one, on objects: what each of them gives is an array, a matrix, or
a tuple of them. Whatever has the members that a stage asks for serves as a problem or a constraint.
-/

namespace Milp.Store

def entriesAt (s : Store) (v : Value) : Except Fault (Table Value) :=
  match v with
  | .object ⟨.dict, id⟩ => .ok (s.dict id)
  | v => .error (v.lacks "items")

def arrayOf (xs : List Float) : Value :=
  .array (.ofDoubles xs)

/-! ## Variables -/

def checkBoundCalls (s : Store) (problem var : Value) : Except Fault Unit := do
  s.checkCall problem "get_var_lower_bound"
  var.checkKey
  s.checkCall problem "get_var_upper_bound"
  s.checkCall problem "get_var_type"

def effectiveBounds (s : Store) (problem var : Value) : Except Fault Value := do
  s.checkBoundCalls problem var
  let b ← (s.declarationsOf problem).effectiveBounds var
  return .tuple [.ofOption b.lower, .ofOption b.upper]

def columnArrays (s : Store) (problem index : Value) : Except Fault Value := do
  let width ← s.length index
  let index ← s.entriesAt index
  index.keys.head?.forM (s.checkBoundCalls problem)
  let cs : Columns Float ←
    (s.declarationsOf problem).columnsAt (s.placesAt width) index
  let flags := cs.integral.map fun b => Scalar.integer .uint8 (if b then 1 else 0)
  return .tuple [arrayOf cs.lower, arrayOf cs.upper, .array (.vector (.integer .uint8) flags)]

/-- The columns of variables, each keeping the last it is given. -/
def indexOf (problem : Value) : Action Store Value := do
  let w ← variablesOf problem
  let index ← .ofExcept (Table.collect (w.items.zipIdx.map fun (v, i) => (v, .int i)))
  .ofExcept (w.finish "")
  newDict index

/-! ## Constraints -/

/-- A number that is the same one wherever it is written. -/
def settledNumber (x : Quantity) : Action Store Quantity := do
  if x.number.isNaN then return { x with id := ← identityOf x.id } else return x

def rangeOf (constraint : Value) : Action Store (Range Quantity) := do
  let rhs ← member constraint "rhs"
  let rhs ← settledNumber (← .ofExcept (Numeric.ofValue rhs))
  return (Relation.counted (← member constraint "operator")).range rhs

def rowBounds (constraint : Value) : Action Store Value := do
  let r ← rangeOf constraint
  return .tuple [r.lower.toValue, r.upper.toValue]

/-- The whole number that a floating point number of fixed size is cut to. One that no machine holds
becomes the least of all. -/
def cutScalar (x : Float) : Int :=
  match Numeric.toIntBy Subtotal.truncate x with
  | .ok n => if Comparand.isMachine n then n else -placeLimit - 1
  | .error _ => -placeLimit - 1

/-- The whole number that the column of a matrix is read as. -/
def columnNumber (v : Value) : Except Fault Int :=
  match v with
  | .scalar (.single x) => .ok (cutScalar x)
  | .scalar (.double x) => .ok (cutScalar x)
  | .undefined .single _ => .ok (cutScalar Binary64.notANumber)
  | .undefined .double _ => .ok (cutScalar Binary64.notANumber)
  | v => do
    let n ← wholeNumber v
    if Comparand.isMachine n then return n else throw .tooLargeForMachine

def checkFlat (s : Store) (columns : List Value) : Except Fault Unit := do
  let x := Nested.rows (columns.map (s.nested depthLimit))
  checkEven x
  if 1 < (Nested.shapeFrom depthLimit [x]).length then
    let _ ← x.leaves.mapM columnNumber
    throw .columnsNested

/-- The constraints of a problem as a matrix, with the two sides of its rows. -/
def constraintMatrix (problem index : Value) : Action Store Value := do
  let constraints ← member problem "constraints"
  let s ← Action.read
  let _ ← .ofExcept (s.length constraints)
  let width ← .ofExcept (s.length index)
  let m : RangedRows Float ← .ofExcept (matrixOf width (s.itemAt index) s.checkFlat columnNumber
    (s.viewConstraints constraints))
  return .tuple [.sparse ⟨m.matrix.width, m.matrix.rows, .double, none⟩,
    arrayOf (m.ranges.map (·.lower)), arrayOf (m.ranges.map (·.upper))]

/-- The status of a problem without variables. -/
def statusWithoutVariables (problem : Value) : Action Store Status := do
  let constraints ← member problem "constraints"
  let cs := (← Action.read).viewConstraints constraints
  return if ← .ofExcept (allHoldWithoutTerms Float cs) then .optimal else .infeasible

/-! ## Objectives -/

def objectiveVector (problem index : Value) : Action Store Value := do
  let width ← .ofExcept ((← Action.read).length index)
  let objective ← member problem "objective"
  let s ← Action.read
  let places (v : Value) : Except Fault (List Nat) := do s.placesAt width (← s.itemAt index v)
  return arrayOf (← .ofExcept (costOf width places (objective.toOption.map s.viewExpression)))

/-! ## Whole numbers -/

def checkBoolean (problem engine : Value) : Action Store Unit := do
  let w ← variablesOf problem
  let s ← Action.read
  .ofExcept (w.items.forM fun v => do
    match ← s.domainBy problem v with
    | .bool => pure ()
    | domain => throw (.notBoolean v domain engine))
  .ofExcept (w.finish "")

/-- The coefficients of an expression in a place are whole. The place is worded before the first of
them is read. -/
def checkWholeTerms (engine : Value) (place : Place) (e : Expression) : Action Store Unit := do
  if !e.terms.items.isEmpty then
    let _ ← write place.message
  .ofExcept (Problem.checkWholeTerms Float engine place e)

/-- The coefficients and the right-hand side of a constraint are whole. -/
def checkWholeConstraint (engine : Value) (c : Constraint) : Action Store Unit := do
  checkWholeTerms engine (.coefficient c.name) c.lhs
  let _ ← write (Place.rhs c.name).message
  let _ ← .ofExcept (c.rhs.toWhole Float engine (.rhs c.name))

/-- All coefficients and right-hand sides of a problem are whole, those of the objective first. -/
def checkWhole (problem engine : Value) : Action Store Unit := do
  let objective ← member problem "objective"
  let s ← Action.read
  objective.toOption.forM fun o => checkWholeTerms engine .objective (s.viewExpression o)
  let constraints ← member problem "constraints"
  let cs := (← Action.read).viewConstraints constraints
  cs.items.forM (checkWholeConstraint engine)
  .ofExcept (cs.finish "lhs")

/-- The columns and the whole coefficients of an expression, as two lists. -/
def wholeTerms (linear index engine : Value) : Action Store Value := do
  let vars ← variablesOf linear
  let s ← Action.read
  let columns ← .ofExcept (vars.mapM "" (s.itemAt index))
  let coefficients ← member linear "coefficients"
  let s ← Action.read
  let coefficients ← .ofExcept ((s.walk coefficients).mapM "" fun c =>
    c.toWhole Float engine (.named (.text "coefficient")))
  return .tuple [← newList columns, ← newList (coefficients.map .int)]

end Milp.Store
