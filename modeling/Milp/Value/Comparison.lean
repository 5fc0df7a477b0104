import Milp.Number.Numeric

/-!
# Comparing numbers of fixed size

A number of fixed size is compared in a way of its own: whole numbers exactly, all others as
doubles, except that a free number is rounded to single precision before it is compared with a
number of that. An array is compared with values in a shape, number by number.
-/

namespace Milp

/-- The form in which a number takes part in a comparison. -/
inductive Comparand where
  /-- A whole number of fixed size, or a flag as zero or one. -/
  | whole (n : Int)
  | single (x : Float)
  | double (x : Float)
  | flag (b : Bool)
  | freeWhole (n : Int)
  | free (x : Float)
  deriving Repr

/-- What is asked of two numbers. -/
abbrev Comparison := Extended → Extended → Bool

namespace Comparand

/-- The form of a number of fixed size. -/
def ofScalar : Scalar → Comparand
  | .integer _ n => whole n
  | .single x => single x
  | .double x => double x
  | .flag b => flag b

/-- The form of a value, if it is a number. -/
def ofValue? : Value → Option Comparand
  | .scalar s => some (ofScalar s)
  | .undefined .single _ => some (.single Binary64.notANumber)
  | .undefined .double _ => some (.double Binary64.notANumber)
  | .undefined .free _ => some (.free Binary64.notANumber)
  | .real x => some (.free x)
  | v => v.toInt?.map freeWhole

def isFixed : Comparand → Bool
  | freeWhole _ => false
  | free _ => false
  | _ => true

def whole? : Comparand → Option Int
  | whole n => some n
  | flag b => some (if b then 1 else 0)
  | freeWhole n => some n
  | _ => none

def toDouble (c : Comparand) : Except Fault Float :=
  match c with
  | whole n => Numeric.ofInt n
  | single x => .ok x
  | double x => .ok x
  | flag b => .ok (if b then 1.0 else 0.0)
  | freeWhole n => Numeric.ofInt n
  | free x => .ok x

/-- Compares numbers as doubles, those given being rounded to single precision first if that is
asked for. -/
def compareAs (test : Comparison) (single : Bool) (a b : Comparand) : Except Fault Bool := do
  let rounded (c : Comparand) : Except Fault Extended := do
    let x ← c.toDouble
    return .ofFloat (if single && !c.isFixed then Binary64.toSingle x else x)
  return test (← rounded a) (← rounded b)

/-- A whole number that fits 64 bits. -/
def isMachine (n : Int) : Bool :=
  -9223372036854775808 ≤ n && n ≤ 9223372036854775807

def isSingle : Comparand → Bool
  | single _ => true
  | _ => false

/-- The number is a flag and the other one a free whole number that no machine holds. -/
def exceedsFlag : Comparand → Comparand → Bool
  | flag _, freeWhole n => !isMachine n
  | _, _ => false

/-- Compares two numbers, one of them of fixed size. -/
def compare (test : Comparison) (a b : Comparand) : Except Fault Bool :=
  if exceedsFlag a b || exceedsFlag b a then .error .tooLargeForMachine
  else match a.whole?, b.whole? with
    | some n, some m => .ok (test (.finite n) (.finite m))
    | _, _ => compareAs test (a.isSingle || b.isSingle) a b

/-- Compares two numbers that both have a size of their own. -/
def compareSized (test : Comparison) (a b : Comparand) : Except Fault Bool :=
  match a.whole?, b.whole? with
  | some n, some m => .ok (test (.finite n) (.finite m))
  | _, _ => compareAs test false a b

end Comparand

def Value.isFixed (v : Value) : Bool :=
  match Comparand.ofValue? v with
  | some c => c.isFixed
  | Option.none => false

def Value.isText : Value → Bool
  | .text _ => true
  | _ => false

/-- The kind of a number of fixed size. -/
def Value.scalarKind? : Value → Option ScalarKind
  | .scalar s => some s.kind
  | .undefined .single _ => some .single
  | .undefined .double _ => some .double
  | _ => Option.none

/-- A number without its size. -/
def Scalar.unboxed : Scalar → Value
  | .integer _ n => .int n
  | .single x => .real x
  | .double x => .real x
  | .flag b => .bool b

/-- A number of fixed size as a grid without axes, if it is one. -/
def Value.scalarGrid? (v : Value) : Option Grid :=
  match v, v.scalarKind? with
  | .scalar s, _ => some ⟨s.kind, [], [s], Option.none⟩
  | _, some .single => some ⟨.single, [], [.single Binary64.notANumber], Option.none⟩
  | _, some .double => some ⟨.double, [], [.double Binary64.notANumber], Option.none⟩
  | _, _ => Option.none

/-! ## Number by number -/

/-- Values in a shape. -/
structure Spread where
  shape : Shape
  leaves : List Value
  /-- There is a single number, which has no size of its own. -/
  free : Bool

namespace Spread

/-- Whole numbers from which on no machine holds them. -/
def machineEnd : Int := 18446744073709551616

/-- A value that takes part in a comparison as what it is and not as a number or a text. -/
def isOther (free : Bool) (v : Value) : Bool :=
  match v.toInt? with
  | some n => !free && (n < -9223372036854775808 || machineEnd ≤ n)
  | none => (Comparand.ofValue? v).isNone && !v.isText

/-- Some of the values are compared as what they are. -/
def hasOthers (x : Spread) : Bool :=
  x.leaves.any (isOther x.free)

/-- There are texts and nothing that is compared as what it is. -/
def hasTexts (x : Spread) : Bool :=
  x.leaves.any Value.isText && !x.hasOthers

def isWhole (x : Spread) : Bool :=
  x.leaves.all fun v => ((Comparand.ofValue? v).bind Comparand.whole?).isSome

/-- Compares the numbers of a grid with numbers in a shape. -/
def compareNumber (x : Spread) (wholly : Bool) (test : Comparison) (a : Scalar) (w : Value) :
    Except Fault Bool :=
  match Comparand.ofValue? w with
  | none => .ok false
  | some b =>
    if x.free then Comparand.compare test (.ofScalar a) b
    else if wholly then Comparand.compareSized test (.ofScalar a) b
    else Comparand.compareAs test false (.ofScalar a) b

/-- Compares a grid with values in a shape, number by number. Texts have one answer for all, and
what is neither a number nor a text is compared in general. -/
def compare (g : Grid) (x : Spread) (test : Comparison) (onTexts : Except Fault Bool)
    (general : Value → Value → Except Fault Bool) : Except Fault Grid := do
  match Shape.common? g.shape x.shape with
  | none => throw (.misfit (.operands [g.shape, x.shape]))
  | some shape =>
    let pairs := (g.stretched shape).zip (Shape.stretch x.shape shape x.leaves)
    let wholly := x.isWhole && (g.entries.all fun s => s.whole?.isSome)
    let answer (a : Scalar) (w : Value) : Except Fault Bool :=
      if x.hasOthers then general a.unboxed w
      else if x.hasTexts then onTexts
      else x.compareNumber wholly test a w
    if x.hasTexts then
      let _ ← onTexts
    return .ofFlags shape (← pairs.mapM fun e => answer e.1 e.2)

end Spread

end Milp
