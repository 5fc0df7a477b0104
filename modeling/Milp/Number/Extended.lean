/-!
# Extended rationals

The rational numbers with two infinities and an undefined number: what the data of a model stands
for when nothing is rounded. An operation without a meaning gives the undefined number, and nothing
compares with that.
-/

namespace Milp

/-- A rational number, an infinity, or the undefined number. -/
inductive Extended where
  | notANumber
  | negInf
  | finite (q : Rat)
  | posInf
  deriving Repr, DecidableEq, Inhabited

namespace Extended

/-- The opposite number. -/
def neg : Extended → Extended
  | notANumber => notANumber
  | negInf => posInf
  | finite q => finite (-q)
  | posInf => negInf

/-- The sum; opposite infinities have none. -/
def add : Extended → Extended → Extended
  | finite p, finite q => finite (p + q)
  | notANumber, _ => notANumber
  | _, notANumber => notANumber
  | negInf, posInf => notANumber
  | posInf, negInf => notANumber
  | negInf, _ => negInf
  | _, negInf => negInf
  | posInf, _ => posInf
  | _, posInf => posInf

/-- The infinity with the sign of a rational number; zero has none. -/
def signedInf (q : Rat) : Extended :=
  if q = 0 then notANumber else if q < 0 then negInf else posInf

/-- The product; zero times an infinity has none. -/
def mul : Extended → Extended → Extended
  | finite p, finite q => finite (p * q)
  | notANumber, _ => notANumber
  | _, notANumber => notANumber
  | posInf, posInf => posInf
  | posInf, negInf => negInf
  | negInf, posInf => negInf
  | negInf, negInf => posInf
  | finite q, posInf => signedInf q
  | posInf, finite q => signedInf q
  | finite q, negInf => signedInf (-q)
  | negInf, finite q => signedInf (-q)

instance : Neg Extended := ⟨neg⟩
instance : Add Extended := ⟨add⟩
instance : Sub Extended := ⟨fun a b => add a (neg b)⟩
instance : Mul Extended := ⟨mul⟩

/-- The first number is at most the second. -/
def le : Extended → Extended → Bool
  | notANumber, _ => false
  | _, notANumber => false
  | negInf, _ => true
  | _, posInf => true
  | finite p, finite q => decide (p ≤ q)
  | posInf, _ => false
  | _, negInf => false

/-- The first number is below the second. -/
def lt : Extended → Extended → Bool
  | notANumber, _ => false
  | _, notANumber => false
  | _, negInf => false
  | posInf, _ => false
  | negInf, _ => true
  | _, posInf => true
  | finite p, finite q => decide (p < q)

/-- The numbers are equal; the undefined number equals nothing. -/
def eq (a b : Extended) : Bool :=
  a == b && a != notANumber

/-- The number is a rational one. -/
def isFinite : Extended → Bool
  | finite _ => true
  | _ => false

/-- The number is an infinity. -/
def isInfinite : Extended → Bool
  | negInf => true
  | posInf => true
  | _ => false

/-- The rational number. -/
def toRat? : Extended → Option Rat
  | finite q => some q
  | _ => none

end Extended

end Milp
