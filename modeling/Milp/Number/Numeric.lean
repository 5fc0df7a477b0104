import Milp.Fault
import Milp.Number.Extended
import Milp.Number.Reading
import Milp.Value.Key

/-!
# Arithmetic

The numbers a model is encoded with. The same encoding runs on doubles, whose operations round, and
on exact extended rationals, in which it can be compared with what the model says.
-/

namespace Milp

/-- The number a double stands for. -/
def Extended.ofFloat (x : Float) : Extended :=
  match Binary64.parts x with
  | .notANumber => .notANumber
  | .infinite negative => if negative then .negInf else .posInf
  | .finite negative m e => .finite (Binary64.scaled negative m e)

/-- Numbers to encode a model with. -/
class Numeric (K : Type) extends Add K, Sub K, Mul K, Neg K where
  /-- The number of a double. -/
  ofFloat : Float → K
  /-- An undefined number that is told from others by its number. -/
  ofUndefined : Nat → K
  /-- The number of a whole number, unless it is out of range. -/
  ofInt : Int → Except Fault K
  /-- What a number stands for. -/
  view : K → Extended

/-- Doubles. -/
instance : Numeric Float where
  ofFloat x := x
  ofUndefined _ := Binary64.notANumber
  ofInt n := match Binary64.ofInt? n with
    | some x => .ok x
    | none => .error .tooLarge
  view := Extended.ofFloat

/-- Exact numbers. -/
instance : Numeric Extended where
  ofFloat := Extended.ofFloat
  ofUndefined _ := .notANumber
  ofInt n := .ok (.finite n)
  view x := x

namespace Numeric

variable {K : Type} [Numeric K]

def zero : K := ofFloat 0.0

/-- One half. -/
def half : K := ofFloat 0.5

/-- Positive infinity. -/
def posInf : K := ofFloat Binary64.infinity

/-- Negative infinity. -/
def negInf : K := ofFloat (-Binary64.infinity)

/-- The first number is at most the second. -/
def le (a b : K) : Bool := (view a).le (view b)

/-- The first number is below the second. -/
def lt (a b : K) : Bool := (view a).lt (view b)

/-- The numbers are equal. -/
def eq (a b : K) : Bool := (view a).eq (view b)

/-- The number is neither infinite nor undefined. -/
def isFinite (a : K) : Bool := (view a).isFinite

def isInfinite (a : K) : Bool := (view a).isInfinite

/-- The larger of two numbers, the first unless the second is above it. -/
def max (a b : K) : K := if lt a b then b else a

/-- The smaller of two numbers, the first unless the second is below it. -/
def min (a b : K) : K := if lt b a then b else a

/-- A whole number found from a finite number. -/
def toIntBy (f : Rat → Int) (a : K) : Except Fault Int :=
  match view a with
  | .notANumber => .error .notANumberToInt
  | .finite q => .ok (f q)
  | _ => .error .infinityToInt

/-- The greatest whole number that is not above. -/
def floor (a : K) : Except Fault Int := toIntBy Rat.floor a

/-- The nearest whole number, a tie going to the even one. -/
def round (a : K) : Except Fault Int := toIntBy roundEven a

/-- The whole number that a number is, if it is one. -/
def whole? (a : K) : Option Int :=
  match view a with
  | .finite q => if isWhole q then some q.num else none
  | _ => none

/-- The number that a value can be read as: numbers as they are, truth values as zero and one, and
texts that denote a number. -/
def ofValue : Value → Except Fault K
  | .bool b => ofInt (if b then 1 else 0)
  | .int n => ofInt n
  | .real x => .ok (ofFloat x)
  | .text s =>
    match Decimal.read? s with
    | some x => .ok (ofFloat x)
    | none => .error (.badNumeral s)
  | .scalar (.integer _ n) => ofInt n
  | .scalar (.single x) => .ok (ofFloat x)
  | .scalar (.double x) => .ok (ofFloat x)
  | .scalar (.flag b) => ofInt (if b then 1 else 0)
  | .symbol (.parameter p) => ofInt p.code
  | .undefined .free id => .ok (ofUndefined id)
  | .undefined _ _ => .ok (ofFloat Binary64.notANumber)
  | .array _ => .error .notOneNumber
  | v => .error (.notNumeric v.kindName)

end Numeric

/-! ## Whole and other numbers -/

/-- A number that is known to be whole, or any other. -/
inductive Number (K : Type) where
  | whole (n : Int)
  | real (x : K)
  deriving Repr, DecidableEq, Inhabited

namespace Number

variable {K : Type} [Numeric K]

def neg : Number K → Number K
  | whole n => whole (-n)
  | real x => real (-x)

/-- The number without the knowledge that it is whole. -/
def toNumeric : Number K → Except Fault K
  | whole n => Numeric.ofInt n
  | real x => .ok x

/-- The sum of two numbers; whole if both are. -/
def plus : Number K → Number K → Except Fault (Number K)
  | whole n, whole m => .ok (whole (n + m))
  | a, b => do return real ((← a.toNumeric) + (← b.toNumeric))

def isZero : Number K → Bool
  | whole n => n == 0
  | real x => Numeric.eq x Numeric.zero

def toValue (value : K → Value) : Number K → Value
  | whole n => .int n
  | real x => value x

end Number

/-! ## Numbers among values -/

namespace Value

/-- The number a numeric value stands for, exactly. -/
def number? : Value → Option Extended
  | .bool b => some (.finite (if b then 1 else 0))
  | .int n => some (.finite n)
  | .real x => some (.ofFloat x)
  | .scalar (.integer _ n) => some (.finite n)
  | .scalar (.single x) => some (.ofFloat x)
  | .scalar (.double x) => some (.ofFloat x)
  | .scalar (.flag b) => some (.finite (if b then 1 else 0))
  | .symbol (.parameter p) => some (.finite p.code)
  | .undefined _ _ => some .notANumber
  | _ => Option.none

/-- A whole number as one of a width, beyond which numbers start anew from the other end. -/
def wrapped (kind : IntegerKind) (n : Int) : Int :=
  match kind with
  | .int8 => n.bmod 256
  | .int16 => n.bmod 65536
  | .int32 => n.bmod 4294967296
  | .int64 => n.bmod 18446744073709551616
  | .uint8 => n.emod 256

/-- The opposite of a number of fixed size. -/
def negatedScalar : Scalar → Except Fault Scalar
  | .integer kind n => .ok (.integer kind (wrapped kind (-n)))
  | .single x => .ok (.single (-x))
  | .double x => .ok (.double (-x))
  | .flag _ => .error .flagNegated

/-- The opposite of a number, or of every number of an array. -/
def negated : Value → Except Fault Value
  | .real x => .ok (.real (-x))
  | .undefined form _ =>
    .ok (match form with
      | .free => .real Binary64.notANumber
      | .single => .scalar (.single Binary64.notANumber)
      | .double => .scalar (.double Binary64.notANumber))
  | .scalar x => (negatedScalar x).map .scalar
  | .array g => do
    if g.kind = .flag then throw .flagNegated
    return .array { g with entries := ← g.entries.mapM negatedScalar, id := Option.none }
  | .sparse m =>
    .ok (.sparse
      { m with rows := m.rows.map fun row => row.map fun e => (e.1, -e.2), id := Option.none })
  | v =>
    match v.toInt? with
    | some n => .ok (.int (-n))
    | Option.none => .error (.badOperand "-" v.kindName)

end Value

end Milp
