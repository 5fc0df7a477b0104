import Milp.Value.Comparison

/-!
# Order

One value is above or below another: numbers by what they stand for, numbers of fixed size in their
own way, and an array by its numbers, which have to agree. A number of fixed size has the first say
about how it is compared, so where it stands second the question is turned round.
-/

namespace Milp

/-- What is asked about the order of two values. -/
inductive Order where
  | above
  | below
  deriving Repr, DecidableEq

namespace Order

def sign : Order → String
  | above => ">"
  | below => "<"

def operation : Order → String
  | above => "greater"
  | below => "less"

def turned : Order → Order
  | above => below
  | below => above

def test : Order → Comparison
  | above => fun x y => y.lt x
  | below => fun x y => x.lt y

/-- An order between values that are compared as what they are. -/
def plain (o : Order) (v w : Value) : Except Fault Bool :=
  match v, w, v.number?, w.number? with
  | _, _, some x, some y => .ok (o.test x y)
  | .text a, .text b, _, _ =>
    .ok (match o with
      | above => decide (b < a)
      | below => decide (a < b))
  | v, w, _, _ => .error (.notOrdered o.sign v.kindName w.kindName)

/-- The texts that an array is compared with have no order to its numbers. -/
def refuseTexts (o : Order) (g : Grid) : Except Fault Bool :=
  .error (.noLoop o.operation g.kind.className "StrDType")

/-- The truth value of an array of one flag. -/
def decided (g : Grid) : Except Fault Bool :=
  match g.entries with
  | [x] => .ok (x.whole? != some 0)
  | [] => .error .emptyTruth
  | _ => .error .ambiguousTruth

/-- A grid stands in an order to values in a shape. -/
def ofGrid (o : Order) (g : Grid) (x : Spread) : Except Fault Bool := do
  decided (← Spread.compare g x o.test (o.refuseTexts g) o.plain)

/-- A value without parts as values in a shape. -/
def lone (v : Value) : Spread :=
  match v with
  | .array g => ⟨g.shape, g.entries.map .scalar, false⟩
  | v => ⟨[], [v], !v.isFixed⟩

def grid? (v : Value) : Option Grid :=
  match v with
  | .array g => some g
  | v => v.scalarGrid?

/-- A value stands in an order to another, of which arrays see what they are given to see. -/
def holdsBy (o : Order) (spread : Value → Except Fault Spread) (v w : Value) : Except Fault Bool :=
  match grid? v, grid? w with
  | some g, _ => do o.ofGrid g (← spread w)
  | none, some h => do o.turned.ofGrid h (← spread v)
  | none, none => o.plain v w

/-- A value stands in an order to another that has no parts. -/
def holds (o : Order) (v w : Value) : Except Fault Bool :=
  o.holdsBy (fun x => .ok (lone x)) v w

end Order

namespace Value

/-- The first value is above the second. -/
def isAbove (v w : Value) : Except Fault Bool :=
  Order.above.holds v w

/-- The first value is below the second. -/
def isBelow (v w : Value) : Except Fault Bool :=
  Order.below.holds v w

end Value

end Milp
