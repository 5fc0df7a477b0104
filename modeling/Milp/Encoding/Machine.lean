import Milp.Encoding.PseudoBoolean
import Milp.Value.Comparison

/-!
# Whole rows in 64 bits

An engine that counts in whole numbers of 64 bits cannot hold every row: the right-hand side has to
fit, with room beyond it in the direction of the relation, and so has every coefficient. A row
without terms is decided before and always fits. The engine describes a sum that it cannot hold. Of
a row that it holds it takes the coefficients of a column together in 64 bits, and a side at the end
of these is none.
-/

namespace Milp

/-- A whole number of at least six digits, rounded to six of them, with the power of ten that its
first digit stands for. -/
def sixDigits (n : Nat) : Nat × Nat :=
  let places := (Nat.repr n).length
  let unit := Nat.pow 10 (places - 6)
  let m := n / unit
  let rest := n % unit
  let rounded := if unit < 2 * rest || (2 * rest = unit && m % 2 = 1) then m + 1 else m
  if rounded = 1000000 then (100000, places) else (rounded, places - 1)

/-- A large whole number in six digits: those behind the first one up to the last that is not zero,
and the power of ten. -/
def roughText (n : Int) : String :=
  let (digits, power) := sixDigits n.natAbs
  let cs := (Nat.repr digits).toList
  let fraction := (cs.drop 1).reverse.dropWhile (· == '0')
  let point := if fraction.isEmpty then "" else "." ++ String.ofList fraction.reverse
  (if n < 0 then "-" else "") ++ String.ofList (cs.take 1) ++ point ++ "e+" ++ Nat.repr power

namespace WholeSum

/-- The description of a term. A coefficient that does not fit is held as a floating point
number. -/
def termText (t : Nat × Int) : String :=
  let variableText := "x" ++ Nat.repr t.1 ++ "(0..1)"
  let affine (kind coefficient : String) : String :=
    kind ++ "(expr=" ++ variableText ++ ", coeff=" ++ coefficient ++ ", offset=0)"
  if t.2 = 1 then variableText
  else if t.2 = 0 then "IntConstant(0)"
  else if Comparand.isMachine t.2 then affine "IntAffine" (Int.repr t.2)
  else affine "FloatAffine" (roughText t.2)

def text (s : WholeSum) : String :=
  match s.terms with
  | [t] => termText t
  | ts => "SumArray(" ++ ", ".intercalate (ts.map termText) ++ ")"

end WholeSum

namespace WholeRow

/-- Why a row does not fit 64 bits, if it does not. -/
def machineFault? (r : WholeRow) : Option MachineFault :=
  if r.lhs.terms.isEmpty then none
  else if !Comparand.isMachine r.rhs then some (.bound r.relation r.lhs.text r.rhs)
  else if r.relation = .le ∧ r.rhs = -9223372036854775808 then some (.limit .le)
  else if r.relation = .ge ∧ r.rhs = 9223372036854775807 then some (.limit .ge)
  else if r.lhs.terms.all fun t => Comparand.isMachine t.2 then none
  else some (.coefficient r.lhs.text)

/-- The columns with their coefficients taken together in 64 bits, those without an effect left out,
in ascending order of columns below a number. -/
def machineTerms (r : WholeRow) (columns : Nat) : List (Nat × Int) :=
  ((List.range columns).map fun j => (j, Value.wrapped .int64 (r.lhs.coefficient j))).filter
    fun t => t.2 != 0

/-- The least value of the left-hand side as it is kept in 64 bits. -/
def machineLower? (r : WholeRow) : Option Int :=
  r.lower?.filter fun n => n != -9223372036854775808

/-- The greatest value of the left-hand side as it is kept in 64 bits. -/
def machineUpper? (r : WholeRow) : Option Int :=
  r.upper?.filter fun n => n != 9223372036854775807

def checkMachine (r : WholeRow) : Except Fault Unit :=
  match r.machineFault? with
  | some why => .error (.machine why)
  | none => .ok ()

end WholeRow

end Milp
