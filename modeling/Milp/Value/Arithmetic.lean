import Milp.Value.Comparison

/-!
# Arithmetic on values

Sums and products of numbers of every sort. A free number takes on the form of the number of fixed
size that it meets, unless that is whole and the free one is not; two numbers of fixed size meet in
the least form that holds both, and whole ones start anew where their form ends. What has no sum or
product has none here.
-/

namespace Milp

namespace ScalarKind

/-- The least width that holds the numbers of two. -/
def commonInteger (a b : IntegerKind) : IntegerKind :=
  match a, b with
  | .int64, _ => .int64
  | _, .int64 => .int64
  | .int32, _ => .int32
  | _, .int32 => .int32
  | .int16, _ => .int16
  | _, .int16 => .int16
  | .uint8, .uint8 => .uint8
  | .int8, .int8 => .int8
  | _, _ => .int16

/-- Single precision holds all numbers of a width. -/
def fitsSingle : IntegerKind → Bool
  | .int32 => false
  | .int64 => false
  | _ => true

/-- The least kind that holds the numbers of two. -/
def common : ScalarKind → ScalarKind → ScalarKind
  | .double, _ => .double
  | _, .double => .double
  | .flag, b => b
  | a, .flag => a
  | .single, .single => .single
  | .single, .integer k => if fitsSingle k then .single else .double
  | .integer k, .single => if fitsSingle k then .single else .double
  | .integer a, .integer b => .integer (commonInteger a b)

end ScalarKind

namespace Value

/-- The kind in which two numbers meet, if one of them has a fixed size. -/
def meetingKind? (v w : Value) : Option ScalarKind :=
  match v.scalarKind?, w.scalarKind? with
  | Option.none, Option.none => Option.none
  | some a, some b => some (a.common b)
  | some a, Option.none => some (free a w)
  | Option.none, some b => some (free b v)
where
  /-- The kind in which a number of a kind meets a free one. -/
  free (kind : ScalarKind) (w : Value) : ScalarKind :=
    match kind, w with
    | kind, .bool _ => kind
    | .flag, w => if w.toInt?.isSome then .integer .int64 else .double
    | .integer k, w => if w.toInt?.isSome then .integer k else .double
    | kind, _ => kind

def double? (v : Value) : Option Float :=
  (Numeric.ofValue v : Except Fault Float).toOption

/-- The whole number that a value is, if it takes part in arithmetic as one. -/
def wholePart? (v : Value) : Option Int :=
  v.flagOrInt?

def inKind (kind : ScalarKind) (whole : Option Int) (x : Option Float) : Option Value :=
  match kind with
  | .integer k => whole.map fun n => .scalar (.integer k (wrapped k n))
  | .flag => whole.map fun n => .scalar (.flag (n != 0))
  | .single => x.map fun x => .scalar (.single (Binary64.toSingle x))
  | .double => x.map fun x => .scalar (.double x)

/-- Carries out an operation that has a form for whole numbers and one for doubles. -/
def combine? (onWhole : Int → Int → Int) (onDoubles : Float → Float → Float) (v w : Value) :
    Option Value := do
  let _ ← v.number?
  let _ ← w.number?
  let whole := do return onWhole (← v.wholePart?) (← w.wholePart?)
  match meetingKind? v w, whole with
  | Option.none, some n => return .int n
  | Option.none, Option.none => return .real (onDoubles (← v.double?) (← w.double?))
  | some .single, _ =>
    let part (v : Value) : Option Float := v.double?.map Binary64.toSingle
    inKind .single Option.none (some (onDoubles (← part v) (← part w)))
  | some kind, whole =>
    inKind kind whole (do return onDoubles (← v.double?) (← w.double?))

/-- The sum of two numbers. -/
def plus? (v w : Value) : Option Value :=
  combine? (· + ·) (· + ·) v w

/-- The product of two numbers, or a text repeated. -/
def times? (v w : Value) : Option Value :=
  match v.toInt?, w with
  | some n, .text t => some (.text ("".intercalate (List.replicate n.toNat t)))
  | _, w => combine? (· * ·) (· * ·) v w

end Value

end Milp
