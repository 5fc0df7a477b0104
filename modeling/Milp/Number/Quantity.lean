import Milp.Number.Numeric

/-!
# Quantities

Floating point numbers that know their form. A calculation with a free number and one of fixed size
has the size of the latter, and every result of single precision is rounded to it. An undefined
number that was only read is still the one it was.
-/

namespace Milp

/-- A floating point number of a form. -/
structure Quantity where
  form : FloatForm
  number : Float
  /-- What tells an undefined number from others. -/
  id : Option Nat
  deriving Repr, Inhabited

namespace Quantity

def free (x : Float) : Quantity := ⟨.free, x, none⟩

/-- The form of what is calculated from numbers of two forms. -/
def commonForm : FloatForm → FloatForm → FloatForm
  | .double, _ => .double
  | _, .double => .double
  | .single, _ => .single
  | _, .single => .single
  | .free, .free => .free

def inForm (form : FloatForm) (x : Float) : Quantity :=
  match form with
  | .single => ⟨.single, Binary64.toSingle x, none⟩
  | form => ⟨form, x, none⟩

/-- Carries a calculation out in the common form. -/
def combine (f : Float → Float → Float) (a b : Quantity) : Quantity :=
  let form := commonForm a.form b.form
  inForm form (f (inForm form a.number).number (inForm form b.number).number)

instance : Add Quantity := ⟨combine (· + ·)⟩
instance : Sub Quantity := ⟨combine (· - ·)⟩
instance : Mul Quantity := ⟨combine (· * ·)⟩
instance : Neg Quantity := ⟨fun a => ⟨a.form, -a.number, none⟩⟩

instance : Numeric Quantity where
  ofFloat := free
  ofUndefined id := ⟨.free, Binary64.notANumber, some id⟩
  ofInt n := (Numeric.ofInt n : Except Fault Float).map free
  view a := Extended.ofFloat a.number

/-- The quantity that is left when a free number is taken from a value. Numbers of fixed size that
are not of single precision become doubles. -/
def ofValue (v : Value) : Except Fault Quantity :=
  match v with
  | .scalar (.single x) => .ok ⟨.single, x, none⟩
  | .undefined form id => .ok ⟨form, Binary64.notANumber, some id⟩
  | .scalar s => (Numeric.ofValue (.scalar s)).map fun x => ⟨.double, x, none⟩
  | v =>
    if v.isReal then (Numeric.ofValue v).map free
    else .error (.unsupported "-" v.kindName "float")

def toValue (a : Quantity) : Value :=
  match a.form, a.id with
  | form, some id => .undefined form id
  | .free, none => .real a.number
  | .single, none => .scalar (.single a.number)
  | .double, none => .scalar (.double a.number)

end Quantity

end Milp
