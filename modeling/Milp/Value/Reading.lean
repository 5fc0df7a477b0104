import Milp.Number.Reading
import Milp.Value.Text

/-!
# Reading values

Numbers of fixed size from their texts, and types from their names.
-/

namespace Milp

def IntegerKind.ofName? (name : String) : Option IntegerKind :=
  [int8, int16, int32, int64, uint8].find? fun k => k.name == name

/-- The number of fixed size of a kind with a text. -/
def Scalar.read? (kind text : String) : Option Scalar :=
  match IntegerKind.ofName? kind, kind with
  | some k, _ => text.toInt?.map (.integer k)
  | none, "float32" => (Decimal.read? text).map fun x => .single (Binary64.toSingle x)
  | none, "float64" => (Decimal.read? text).map .double
  | none, "bool" => some (.flag (text == "1"))
  | none, _ => none

def TypeName.ofName? (name : String) : Option TypeName :=
  [int, bool, float, text, complex, list].find? fun t => t.name == name

end Milp
