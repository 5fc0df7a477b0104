/-!
# Binary floating point, exactly

A double is read as the rational number it stands for, and a rational number is rounded to the
nearest value of a binary format, a tie going to the even significand. Everything is done in whole
numbers, so no step of the rounding can itself be rounded.
-/

namespace Milp

/-! ## Rounding a quotient -/

/-- The whole number nearest to `n / d`, a tie going to the even one. -/
def divEven (n d : Nat) : Nat :=
  if 2 * (n % d) < d then n / d
  else if d < 2 * (n % d) then n / d + 1
  else n / d + n / d % 2

/-- The whole number nearest to a rational, a tie going to the even one. -/
def roundEven (q : Rat) : Int :=
  let below := q.floor
  let rest := q - below
  if rest < 1 / 2 then below
  else if 1 / 2 < rest then below + 1
  else below + below % 2

/-- A number with a fractional part is not whole. -/
def isWhole (q : Rat) : Bool :=
  q.den == 1

/-! ## Formats -/

/-- A binary format: bits of the significand, and the exponents of the least and the greatest
unit in the last place. -/
structure BinaryFormat where
  precision : Nat
  leastExponent : Int
  greatestExponent : Int
  deriving Repr, DecidableEq

namespace BinaryFormat

def double : BinaryFormat := ⟨53, -1074, 971⟩

def single : BinaryFormat := ⟨24, -149, 104⟩

/-- `n · 2^e / d` is below one. -/
def scaledBelow (n d : Nat) (e : Int) : Bool :=
  match e with
  | .ofNat k => n <<< k < d
  | .negSucc k => n < d <<< (k + 1)

/-- The exponent of the unit in the last place of the positive number `n / d`. -/
def unitExponent (f : BinaryFormat) (n d : Nat) : Int :=
  let lead : Int := n.log2 - d.log2
  let lead := if scaledBelow n d (-lead) then lead - 1 else lead
  max (lead - (f.precision - 1 : Nat)) f.leastExponent

/-- The multiple of `2^e` nearest to `n / d`, as the number of units. -/
def unitsAt (n d : Nat) (e : Int) : Nat :=
  match e with
  | .ofNat k => divEven n (d <<< k)
  | .negSucc k => divEven (n <<< (k + 1)) d

/-- Significand and exponent of the value nearest to the positive number `n / d`; nothing when it
is out of range. -/
def nearest? (f : BinaryFormat) (n d : Nat) : Option (Nat × Int) :=
  let e := f.unitExponent n d
  let m := unitsAt n d e
  let (m, e) := if m = 1 <<< f.precision then (m / 2, e + 1) else (m, e)
  if f.greatestExponent < e then none else some (m, e)

end BinaryFormat

/-! ## Doubles -/

namespace Binary64

/-- What the bits of a double say. -/
inductive Parts where
  | notANumber
  | infinite (negative : Bool)
  | finite (negative : Bool) (significand : Nat) (exponent : Int)
  deriving Repr, DecidableEq

/-- The leading bit of a significand, which the bits of a double leave out. -/
def leadingBit : Nat := 1 <<< 52

/-- Reads sign, significand and exponent off the bits. -/
def parts (x : Float) : Parts :=
  let bits := x.toBits.toNat
  let negative := (bits >>> 63) == 1
  let exponent := (bits >>> 52) % 2048
  let fraction := bits % leadingBit
  if exponent = 2047 then
    if fraction = 0 then .infinite negative else .notANumber
  else if exponent = 0 then .finite negative fraction (-1074)
  else .finite negative (fraction + leadingBit) ((exponent : Int) - 1075)

/-- The double `± m · 2^e`, for a significand and exponent of the format. -/
def assemble (negative : Bool) (m : Nat) (e : Int) : Float :=
  let magnitude := if m < leadingBit then m else ((e + 1075).toNat <<< 52) + (m - leadingBit)
  Float.ofBits (UInt64.ofNat (if negative then (1 <<< 63) + magnitude else magnitude))

def infinity : Float := Float.ofBits 0x7FF0000000000000

/-- Not a number. -/
def notANumber : Float := Float.ofBits 0x7FF8000000000000

/-- The rational number `± m · 2^e`. -/
def scaled (negative : Bool) (m : Nat) (e : Int) : Rat :=
  let signed : Int := if negative then -(m : Int) else m
  match e with
  | .ofNat k => ((signed * ((1 <<< k : Nat) : Int) : Int) : Rat)
  | .negSucc k => mkRat signed (1 <<< (k + 1))

/-- The number a finite double stands for. -/
def toRat? (x : Float) : Option Rat :=
  match parts x with
  | .finite negative m e => some (scaled negative m e)
  | _ => none

/-- The finite double nearest to a rational; nothing when it is out of range. -/
def ofRat? (q : Rat) : Option Float :=
  if q.num = 0 then some 0
  else (BinaryFormat.double.nearest? q.num.natAbs q.den).map fun (m, e) =>
    assemble (decide (q.num < 0)) m e

/-- The double nearest to a whole number; nothing when it is out of range. -/
def ofInt? (n : Int) : Option Float :=
  ofRat? n

/-- The double nearest to a finite double rounded to a number of decimal places, a tie going to the
even digit. -/
def roundPlaces (places : Nat) (x : Float) : Float :=
  let unit : Rat := 10 ^ places
  ((toRat? x).bind fun q => ofRat? (roundEven (q * unit) / unit)).getD x

/-- The nearest number with a 24-bit significand, as a double; infinite when out of range. -/
def toSingle (x : Float) : Float :=
  match parts x with
  | .finite negative m e =>
    if m = 0 then x
    else
      let q := scaled false m e
      match BinaryFormat.single.nearest? q.num.natAbs q.den with
      | some (m, e) =>
        let r := scaled negative m e
        (ofRat? r).getD x
      | none => if negative then -infinity else infinity
  | _ => x

end Binary64

end Milp
