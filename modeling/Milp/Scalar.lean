/-!
# Numbers of fixed size

Numbers as arrays hold them: whole numbers of a width, floating point numbers of two precisions, and
flags.
-/

namespace Milp

/-- The widths of whole numbers of fixed size. -/
inductive IntegerKind where
  | int8
  | int16
  | int32
  | int64
  | uint8
  deriving Repr, DecidableEq, Inhabited

/-- The kinds of numbers of fixed size. -/
inductive ScalarKind where
  | integer (kind : IntegerKind)
  | single
  | double
  | flag
  deriving Repr, DecidableEq, Inhabited

/-- Numbers of fixed size. -/
inductive Scalar where
  | integer (kind : IntegerKind) (n : Int)
  /-- A number of single precision, held exactly. -/
  | single (x : Float)
  | double (x : Float)
  | flag (b : Bool)
  deriving Repr, DecidableEq, Inhabited

/-- The forms of floating point numbers: free ones, and those of fixed size. -/
inductive FloatForm where
  | free
  | single
  | double
  deriving Repr, DecidableEq, Inhabited

/-! ## Kinds and their names -/

def IntegerKind.name : IntegerKind → String
  | .int8 => "int8"
  | .int16 => "int16"
  | .int32 => "int32"
  | .int64 => "int64"
  | .uint8 => "uint8"

def ScalarKind.name : ScalarKind → String
  | .integer k => k.name
  | .single => "float32"
  | .double => "float64"
  | .flag => "bool"

def ScalarKind.className : ScalarKind → String
  | .integer .int8 => "Int8DType"
  | .integer .int16 => "Int16DType"
  | .integer .int32 => "Int32DType"
  | .integer .int64 => "Int64DType"
  | .integer .uint8 => "UInt8DType"
  | .single => "Float32DType"
  | .double => "Float64DType"
  | .flag => "BoolDType"

namespace Scalar

def kind : Scalar → ScalarKind
  | integer k _ => .integer k
  | single _ => .single
  | double _ => .double
  | flag _ => .flag

def kindName (s : Scalar) : String :=
  s.kind.name

/-- The whole number that a number is, flags being zero or one. -/
def whole? : Scalar → Option Int
  | integer _ n => some n
  | flag b => some (if b then 1 else 0)
  | _ => none

end Scalar

end Milp
